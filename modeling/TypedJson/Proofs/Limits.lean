import TypedJson.Encode
import TypedJson.Proofs.Loops
import TypedJson.Proofs.Induction
import TypedJson.Proofs.Session

/-!
# TypedJson — the depth limit is only a cut-off

A conversion carries the number of containers that it has entered and the limit through all of its
loops. Raising the limit must not change an answer, short of the answer that the limit was too low:

* **`CutOff`** — the outcome of one run is a given failure, or it is the outcome of the other run;
* **`CutOff.enter`** — the one step that looks at the limit;
* **`Ty.decode_cutOff`**, **`Value.encode_cutOff`** — all conversions, in both directions;
* **`depthLimit_only_cutsOff`** — the same for each entry point of the library.

Two runs are followed side by side. At the first step where they part the lower one fails, and what
is left to see is that no step after it touches that failure: it goes out bare, without a label.
-/

namespace TypedJson

/-- The first computation failed with this error, or it is the second. -/
def CutOff {ε α : Type} (e : ε) (low high : Except ε α) : Prop := low = .error e ∨ low = high

namespace CutOff

section

variable {ε ε' α β σ : Type} {e : ε}

@[refl] theorem refl (x : Except ε α) : CutOff e x x := .inr rfl

/-! ## Steps after a cut -/

/-- A cut in the first step ends both runs as one; without it both go on from the same answer. -/
theorem bind {x y : Except ε α} {f g : α → Except ε β} (h : CutOff e x y)
    (hnext : ∀ a, CutOff e (f a) (g a)) : CutOff e (x >>= f) (y >>= g) := by
  rcases h with hcut | hsame
  · rw [hcut]
    exact .inl rfl
  · rw [hsame]
    cases y with
    | error e => exact .refl _
    | ok a => exact hnext a

theorem map {x y : Except ε α} (h : CutOff e x y) (f : α → β) : CutOff e (x.map f) (y.map f) := by
  rcases h with hcut | hsame
  · rw [hcut]
    exact .inl rfl
  · rw [hsame]

/-- What is done to errors is done to the cut as well; the labels leave `depthLimit` bare. -/
theorem mapError {x y : Except ε α} (h : CutOff e x y) (f : ε → ε') :
    CutOff (f e) (x.mapError f) (y.mapError f) := by
  rcases h with hcut | hsame
  · rw [hcut]
    exact .inl rfl
  · rw [hsame]

/-- A loop is cut where a step is cut, from whatever state it got to. -/
theorem foldlM {step step' : σ → α → Except ε σ} {xs : List α}
    (hstep : ∀ x ∈ xs, ∀ s, CutOff e (step s x) (step' s x)) (s : σ) :
    CutOff e (xs.foldlM step s) (xs.foldlM step' s) := by
  induction xs generalizing s with
  | nil => exact .refl _
  | cons x xs ih =>
    rw [List.foldlM_cons, List.foldlM_cons]
    have hhead : CutOff e (step s x) (step' s x) := hstep x List.mem_cons_self s
    have htail : ∀ y ∈ xs, ∀ s, CutOff e (step s y) (step' s y) :=
      fun y hy => hstep y (List.mem_cons_of_mem x hy)
    exact hhead.bind (ih htail)

theorem mapM {f g : α → Except ε β} {xs : List α} (h : ∀ x ∈ xs, CutOff e (f x) (g x)) :
    CutOff e (xs.mapM f) (xs.mapM g) := by
  induction xs with
  | nil => exact .refl _
  | cons x xs ih =>
    rw [List.mapM_cons, List.mapM_cons]
    have htail : CutOff e (xs.mapM f) (xs.mapM g) := ih fun y hy => h y (List.mem_cons_of_mem x hy)
    exact (h x List.mem_cons_self).bind fun y => htail.bind fun ys => .refl _

protected theorem forM {f g : α → Except ε PUnit} {xs : List α}
    (h : ∀ x ∈ xs, CutOff e (f x) (g x)) : CutOff e (forM xs f) (forM xs g) := by
  induction xs with
  | nil => exact .refl _
  | cons x xs ih =>
    rw [List.forM_cons, List.forM_cons]
    have htail : CutOff e (forM xs f) (forM xs g) := ih fun y hy => h y (List.mem_cons_of_mem x hy)
    exact (h x List.mem_cons_self).bind fun _ => htail

end

variable {α : Type} {limit limit' : Nat}

/-- The failure of the limit gets no label. -/
theorem annotate {x y : Except Error α} (h : CutOff (.depthLimit limit) x y) (label : String) :
    CutOff (.depthLimit limit) (x.mapError (Error.annotate label))
      (y.mapError (Error.annotate label)) :=
  h.mapError (Error.annotate label)

/-! ## The step that is cut -/

/-- Both runs have entered as many containers. The lower one stops here, or both go on. -/
theorem enter {current : Nat} (hlimit : limit ≤ limit') {f g : Depth → Except Error α}
    (hinner : CutOff (.depthLimit limit) (f ⟨current + 1, limit⟩) (g ⟨current + 1, limit'⟩)) :
    CutOff (.depthLimit limit) ((Depth.mk current limit).enter >>= f)
      ((Depth.mk current limit').enter >>= g) := by
  -- the lower run has no room and is cut, or both runs go in
  by_cases hroom : current < limit
  · have hlow : (Depth.mk current limit).enter = .ok ⟨current + 1, limit⟩ :=
      Depth.enter_eq_ok_iff.mpr ⟨hroom, rfl⟩
    have hhigh : (Depth.mk current limit').enter = .ok ⟨current + 1, limit'⟩ :=
      Depth.enter_eq_ok_iff.mpr ⟨Nat.lt_of_lt_of_le hroom hlimit, rfl⟩
    rw [hlow, hhigh]
    exact hinner
  · have hlow : (Depth.mk current limit).enter = .error (.depthLimit limit) := by
      rw [Depth.enter]
      exact if_pos (Nat.le_of_not_lt hroom)
    rw [hlow]
    exact .inl rfl

end CutOff

/-! ## From JSON -/

section

variable {limit limit' : Nat} (hlimit : limit ≤ limit')

include hlimit

/-- The check before a text is written does nothing but look at the limit. -/
theorem Value.checkNesting_cutOff (v : Value) (current : Nat) :
    CutOff (.depthLimit limit) (v.checkNesting ⟨current, limit⟩)
      (v.checkNesting ⟨current, limit'⟩) := by
  induction v generalizing current with
  | null => exact .refl _
  | scalar s => exact .refl _
  | array a ih =>
    show CutOff (.depthLimit limit) (a.checkNesting _) (a.checkNesting _)
    rw [TypedArray.checkNesting_eq, TypedArray.checkNesting_eq]
    exact .enter hlimit (.forM fun v hv => ih v hv (current + 1))
  | map m ih =>
    show CutOff (.depthLimit limit) (m.checkNesting _) (m.checkNesting _)
    rw [TypedMap.checkNesting_eq, TypedMap.checkNesting_eq]
    exact .enter hlimit (.forM fun e he => ih e he (current + 1))

/-- Of the scalar types only `string` looks into containers. -/
theorem ScalarKind.decode_cutOff (k : ScalarKind) (current : Nat) (v : Value) :
    CutOff (.depthLimit limit) (k.decode ⟨current, limit⟩ v) (k.decode ⟨current, limit'⟩ v) := by
  cases v with
  | null => cases k <;> exact .refl _
  | scalar s => cases k <;> cases s <;> exact .refl _
  | array a =>
    cases k with
    | string =>
      have hnesting := (Value.array a).checkNesting_cutOff hlimit current
      exact hnesting.bind fun _ => .refl _
    | _ => exact .refl _
  | map m =>
    cases k with
    | string =>
      have hnesting := (Value.map m).checkNesting_cutOff hlimit current
      exact hnesting.bind fun _ => .refl _
    | _ => exact .refl _

/-- An array is entered and its elements are converted one level further in; the label of a failing
element leaves a cut bare. -/
theorem TypedArray.decodeWith_cutOff (elementType : Ty)
    {convert : Depth → Value → Except Error Value}
    (hconvert : ∀ current v,
      CutOff (.depthLimit limit) (convert ⟨current, limit⟩ v) (convert ⟨current, limit'⟩ v))
    (current : Nat) (v : Value) :
    CutOff (.depthLimit limit) (decodeWith elementType convert ⟨current, limit⟩ v)
      (decodeWith elementType convert ⟨current, limit'⟩ v) := by
  cases v with
  | array source =>
    have hcollect (out : TypedArray) : CutOff (.depthLimit limit)
        (collect (convert ⟨current + 1, limit⟩) source.toList out)
        (collect (convert ⟨current + 1, limit'⟩) source.toList out) :=
      .foldlM (fun v _ out => (hconvert (current + 1) v).bind fun _ => .refl _) out
    have hlabelled (out : TypedArray) : CutOff (.depthLimit limit)
        (collectLabelled (convert ⟨current + 1, limit⟩) 0 source.toList out)
        (collectLabelled (convert ⟨current + 1, limit'⟩) 0 source.toList out) := by
      rw [collectLabelled_eq_foldlM, collectLabelled_eq_foldlM]
      refine .foldlM (fun p _ out => ?_) out
      exact ((hconvert (current + 1) p.1).bind fun _ => .refl _).annotate _
    -- which loop runs is a matter of the element type
    refine .enter hlimit ?_
    cases elementType with
    | scalar k =>
      cases k with
      | byte => exact hlabelled _
      | _ => exact hcollect _
    | any => exact .refl _
    | _ => exact hlabelled _
  | _ => exact .refl _

theorem TypedMap.decodeWith_cutOff (constraint : Option Ty)
    {convert : Depth → Value → Except Error Value}
    (hconvert : ∀ current v,
      CutOff (.depthLimit limit) (convert ⟨current, limit⟩ v) (convert ⟨current, limit'⟩ v))
    (current : Nat) (v : Value) :
    CutOff (.depthLimit limit) (decodeWith constraint convert ⟨current, limit⟩ v)
      (decodeWith constraint convert ⟨current, limit'⟩ v) := by
  unfold decodeWith
  cases v.asObject? with
  | none => exact .refl _
  | some source =>
    refine .enter hlimit (.foldlM (fun e _ out => ?_) _)
    exact ((hconvert (current + 1) e.2).bind fun _ => .refl _).annotate e.1

/-- A map is read entry by entry or copied; copying looks at the limit only to enter. -/
theorem TypedMap.decode_cutOff (constraint : Option Ty)
    (hvalues : ∀ t, constraint = some t → ∀ current v,
      CutOff (.depthLimit limit) (t.decode ⟨current, limit⟩ v) (t.decode ⟨current, limit'⟩ v))
    (current : Nat) (v : Value) :
    CutOff (.depthLimit limit) (decode constraint ⟨current, limit⟩ v)
      (decode constraint ⟨current, limit'⟩ v) := by
  cases constraint with
  | none => exact decodeWith_cutOff hlimit none (fun _ _ => .refl _) current v
  | some t =>
    refine decodeWith_cutOff hlimit (some t) (fun current v => ?_) current v
    -- values of `any` and of `json` are taken as they are
    split
    · exact .refl _
    · exact hvalues t rfl current v

/-- A record is entered and its fields converted; the default of an absent one needs no depth. -/
theorem RecordTy.decode_cutOff (r : RecordTy)
    (hfields : ∀ f ∈ r.fields, ∀ current v,
      CutOff (.depthLimit limit) (f.2.ty.decode ⟨current, limit⟩ v)
        (f.2.ty.decode ⟨current, limit'⟩ v))
    (current : Nat) (v : Value) :
    CutOff (.depthLimit limit) (r.decode ⟨current, limit⟩ v) (r.decode ⟨current, limit'⟩ v) := by
  rw [decode_eq, decode_eq]
  cases v.asObject? with
  | none => exact .refl _
  | some source =>
    refine .enter hlimit (.foldlM (fun f hf out => ?_) _)
    have hfield : CutOff (.depthLimit limit) (f.2.decode ⟨current + 1, limit⟩ (source.get? f.1))
        (f.2.decode ⟨current + 1, limit'⟩ (source.get? f.1)) := by
      cases source.get? f.1 with
      | none =>
        rw [Field.decode_none, Field.decode_none]
      | some x =>
        rw [Field.decode_some, Field.decode_some]
        exact hfields f hf (current + 1) x
    exact (hfield.bind fun _ => .refl _).annotate f.1

/-- **Conversion from JSON is cut off by the limit and not changed otherwise.** -/
theorem Ty.decode_cutOff (t : Ty) (current : Nat) (v : Value) :
    CutOff (.depthLimit limit) (t.decode ⟨current, limit⟩ v) (t.decode ⟨current, limit'⟩ v) := by
  induction t generalizing current v with
  | scalar k => exact k.decode_cutOff hlimit current v
  | json => exact .refl _
  | any => exact .refl _
  | null => exact .refl _
  | union members nullable ih =>
    rw [decode, decode, decodeOnly_eq, decodeOnly_eq]
    split
    · exact .refl _
    · -- a union enters no container itself, its only member may
      cases hmembers : nonNull members with
      | nil => exact .refl _
      | cons only rest =>
        cases rest with
        | nil =>
          exact ih only (mem_of_nonNull hmembers) current v
        | cons _ _ => exact .refl _
  | array element ih =>
    exact (TypedArray.decodeWith_cutOff hlimit element ih current v).map Value.array
  | openMap =>
    exact (TypedMap.decode_cutOff hlimit none (by simp) current v).map Value.map
  | mapOf t ih =>
    have hvalues (u : Ty) (h : some t = some u) : ∀ current v,
        CutOff (.depthLimit limit) (u.decode ⟨current, limit⟩ v) (u.decode ⟨current, limit'⟩ v) :=
      Option.some.inj h ▸ ih
    exact (TypedMap.decode_cutOff hlimit (some t) hvalues current v).map Value.map
  | record r ih _ => exact (r.decode_cutOff hlimit ih current v).map Value.map

/-! ## To JSON -/

/-- An array is entered, and then copied or converted element by element. -/
theorem TypedArray.encode_cutOff (a : TypedArray)
    (hitems : ∀ v ∈ a.toList, ∀ allowed current,
      CutOff (.depthLimit limit) (v.encodeElement allowed ⟨current, limit⟩)
        (v.encodeElement allowed ⟨current, limit'⟩))
    (current : Nat) :
    CutOff (.depthLimit limit) (a.encode ⟨current, limit⟩) (a.encode ⟨current, limit'⟩) := by
  rw [encode_eq, encode_eq]
  refine .enter hlimit ?_
  split
  case h_5 =>
    have hloop := CutOff.mapM fun v hv =>
      hitems v hv a.elementType.isJsonCompatible (current + 1)
    exact hloop.bind fun _ => .refl _
  all_goals exact .refl _

theorem TypedMap.rebuild_cutOff (m : TypedMap) (target : Ty)
    (hentries : ∀ e ∈ m.entries, ∀ current, CutOff (.depthLimit limit)
      (e.2.encodeEntry target ⟨current, limit⟩) (e.2.encodeEntry target ⟨current, limit'⟩))
    (current : Nat) :
    CutOff (.depthLimit limit) (m.rebuild target ⟨current, limit⟩)
      (m.rebuild target ⟨current, limit'⟩) := by
  rw [rebuild_eq, rebuild_eq]
  refine .enter hlimit (.foldlM (fun e he out => ?_) _)
  exact ((hentries e he (current + 1)).bind fun _ => .refl _).annotate e.1

/-- A nested map is rebuilt, passed through, or refused without a look at the limit. -/
theorem TypedMap.encode_cutOff (m : TypedMap) (target : Ty)
    (hentries : ∀ e ∈ m.entries, ∀ current, CutOff (.depthLimit limit)
      (e.2.encodeEntry target ⟨current, limit⟩) (e.2.encodeEntry target ⟨current, limit'⟩))
    (current : Nat) :
    CutOff (.depthLimit limit) (m.encode target ⟨current, limit⟩)
      (m.encode target ⟨current, limit'⟩) := by
  have hrebuild := m.rebuild_cutOff hlimit target hentries current
  rw [encode_eq, encode_eq]
  split
  · exact .refl _
  · exact hrebuild.map Value.map
  · exact hrebuild.map Value.map
  · exact .refl _

/-- **Conversion to JSON is cut off by the limit and not changed otherwise**, of elements and of
entries. -/
theorem Value.encode_cutOff (v : Value) :
    (∀ allowed current, CutOff (.depthLimit limit) (v.encodeElement allowed ⟨current, limit⟩)
      (v.encodeElement allowed ⟨current, limit'⟩)) ∧
    ∀ target current, CutOff (.depthLimit limit) (v.encodeEntry target ⟨current, limit⟩)
      (v.encodeEntry target ⟨current, limit'⟩) := by
  -- elements and entries call each other, so both directions are in one statement
  induction v with
  | null => exact ⟨fun _ _ => .refl _, fun _ _ => .refl _⟩
  | scalar s => exact ⟨fun _ _ => .refl _, fun _ _ => .refl _⟩
  | array a ih =>
    have harray (current : Nat) : CutOff (.depthLimit limit)
        ((a.encode ⟨current, limit⟩).map Value.array)
        ((a.encode ⟨current, limit'⟩).map Value.array) :=
      (a.encode_cutOff hlimit (fun v hv => (ih v hv).1) current).map Value.array
    exact ⟨fun _ => harray, fun _ => harray⟩
  | map m ih =>
    have hmap (target : Ty) := m.encode_cutOff hlimit target fun e he => (ih e he).2 target
    exact ⟨fun _ => hmap .json, hmap⟩

/-! ## The calls -/

/-- Only a map is converted; anything else is answered at once. -/
theorem Value.encodeMember_cutOff (v : Value) (target : Ty) :
    CutOff (.depthLimit limit) (v.encodeMember target (.root limit))
      (v.encodeMember target (.root limit')) := by
  cases v with
  | null => exact .refl _
  | scalar s => exact .refl _
  | array a => exact .refl _
  | map m => exact ((Value.map m).encode_cutOff hlimit).2 target 0

theorem Value.encodeRecord_cutOff (v : Value) :
    CutOff (.depthLimit limit) (v.encodeRecord (.root limit)) (v.encodeRecord (.root limit')) := by
  cases v with
  | map m =>
    have hrebuild := m.rebuild_cutOff hlimit .json (fun e _ => (e.2.encode_cutOff hlimit).2 .json) 0
    simp only [encodeRecord]
    by_cases hmapping : m.ty.isMapping = true
    · rw [if_pos hmapping, if_pos hmapping]
      exact hrebuild
    · rw [if_neg hmapping, if_neg hmapping]
  | _ => exact .refl _

/-- A value is encoded and put. A cut comes before the put and gets no label. -/
theorem TypedMap.putEncoded_cutOff (object : TypedMap) (key : String) (v : Value) (target : Ty) :
    CutOff (.depthLimit limit) (object.putEncoded key v target (.root limit))
      (object.putEncoded key v target (.root limit')) := by
  have hentry := (v.encode_cutOff hlimit).2 target 0
  rw [putEncoded_eq, putEncoded_eq]
  exact (hentry.bind fun _ => .refl _).annotate key

/-- The object that is written to is in a slot of a session. A cut write leaves the session as it
was, and any other leaves the same session under both limits. -/
theorem Call.putEncoded_step_cutOff (key : String) (target : Ty) (slot operand : Nat)
    (session : Session) :
    (write (.putEncoded key target limit) slot operand).step session =
        (.error (.failed (.depthLimit limit)), session) ∨
      (write (.putEncoded key target limit) slot operand).step session =
        (write (.putEncoded key target limit') slot operand).step session := by
  have hwrite (v x : Value) : CutOff (.failed (.depthLimit limit))
      ((Write.putEncoded key target limit).run v x)
      ((Write.putEncoded key target limit').run v x) := by
    rw [Write.run_eq, Write.run_eq]
    refine (CutOff.refl _).bind fun m => ?_
    have hput := m.putEncoded_cutOff hlimit key x target
    exact (hput.mapError Refusal.failed).bind fun _ => .refl _
  have hrun : CutOff (.failed (.depthLimit limit))
      ((write (.putEncoded key target limit) slot operand).run session)
      ((write (.putEncoded key target limit') slot operand).run session) := by
    rw [run_eq, run_eq]
    refine (CutOff.refl _).bind fun v => (CutOff.refl _).bind fun x => ?_
    exact (hwrite v x).bind fun _ => .refl _
  -- a cut call is a refused one: the session stays
  rcases hrun with hcut | hsame
  · left
    rw [step_eq, hcut]
  · right
    rw [step_eq, step_eq, hsame]

end

/-- **The depth limit is only a cut-off.** Of each conversion, the outcome under a limit is the bare
failure of that limit or the outcome under any higher one, value or failure alike. A write of a
converted value into an object leaves, besides, the same object behind. -/
theorem depthLimit_only_cutsOff {limit limit' : Nat} (hlimit : limit ≤ limit') :
    (∀ (t : Ty) (v : Value),
      CutOff (.depthLimit limit) (t.decode (.root limit) v) (t.decode (.root limit') v)) ∧
    (∀ (r : RecordTy) (v : Value),
      CutOff (.depthLimit limit) (r.decode (.root limit) v) (r.decode (.root limit') v)) ∧
    (∀ (element : Ty) (v : Value),
      CutOff (.depthLimit limit) (TypedArray.decode element (.root limit) v)
        (TypedArray.decode element (.root limit') v)) ∧
    (∀ (constraint : Option Ty) (v : Value),
      CutOff (.depthLimit limit) (TypedMap.decode constraint (.root limit) v)
        (TypedMap.decode constraint (.root limit') v)) ∧
    (∀ a : TypedArray,
      CutOff (.depthLimit limit) (a.encode (.root limit)) (a.encode (.root limit'))) ∧
    (∀ (m : TypedMap) (target : Ty),
      CutOff (.depthLimit limit) (m.rebuild target (.root limit))
        (m.rebuild target (.root limit'))) ∧
    (∀ (v : Value) (target : Ty),
      CutOff (.depthLimit limit) (v.encodeMember target (.root limit))
        (v.encodeMember target (.root limit'))) ∧
    (∀ v : Value,
      CutOff (.depthLimit limit) (v.encodeRecord (.root limit)) (v.encodeRecord (.root limit'))) ∧
    (∀ (object : TypedMap) (key : String) (v : Value) (target : Ty),
      CutOff (.depthLimit limit) (object.putEncoded key v target (.root limit))
        (object.putEncoded key v target (.root limit'))) ∧
    ∀ (key : String) (target : Ty) (slot operand : Nat) (session : Session),
      (Call.write (.putEncoded key target limit) slot operand).step session =
          (.error (.failed (.depthLimit limit)), session) ∨
        (Call.write (.putEncoded key target limit) slot operand).step session =
          (Call.write (.putEncoded key target limit') slot operand).step session := by
  refine ⟨fun t => t.decode_cutOff hlimit 0, fun r => ?_, fun element => ?_,
    fun constraint => ?_, fun a => ?_, fun m target => ?_,
    Value.encodeMember_cutOff hlimit, Value.encodeRecord_cutOff hlimit,
    TypedMap.putEncoded_cutOff hlimit, Call.putEncoded_step_cutOff hlimit⟩
  · exact r.decode_cutOff hlimit (fun f _ => f.2.ty.decode_cutOff hlimit) 0
  · exact TypedArray.decodeWith_cutOff hlimit element (element.decode_cutOff hlimit) 0
  · exact TypedMap.decode_cutOff hlimit constraint (fun t _ => t.decode_cutOff hlimit) 0
  · exact a.encode_cutOff hlimit (fun v _ => (v.encode_cutOff hlimit).1) 0
  · exact m.rebuild_cutOff hlimit target (fun e _ => (e.2.encode_cutOff hlimit).2 target) 0

/-- Two containers inside each other: one is too few, two are enough, and so are nine. -/
theorem depthLimit_only_cutsOff_matrix :
    let matrix : Value := .array (.ofBoxed .json [.array (.ofBoxed .json [.int 1, .int 2])])
    let decode (limit : Nat) := (Ty.array (.array .float)).decode (.root limit) matrix
    decode 1 = .error (.depthLimit 1) ∧ (decode 2).isOk = true ∧ decode 2 = decode 9 := by
  intro matrix decode
  have hcut : decode 1 = .error (.depthLimit 1) := rfl
  have hok : (decode 2).isOk = true := rfl
  have htwo : 2 ≤ 9 := by decide
  rcases (depthLimit_only_cutsOff htwo).1 (.array (.array .float)) matrix with hlow | hsame
  · have hfails : decode 2 = .error (.depthLimit 2) := hlow
    rw [hfails] at hok
    cases hok
  · exact ⟨hcut, hok, hsame⟩

end TypedJson
