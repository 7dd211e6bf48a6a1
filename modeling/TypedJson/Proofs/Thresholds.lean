import TypedJson.Proofs.Encodable
import TypedJson.Proofs.Limits
import TypedJson.Proofs.Positions

/-!
# TypedJson — the depth limit is exact

A conversion that can succeed at all succeeds from one limit on, and under each lower one it fails
with nothing but that limit. The least such limit is read off the value:

* **`Value.Conforms.needsRoom`** — to JSON it is the nesting of what is rebuilt;
* **`Value.toText_exactAt`** — to text it is the nesting of the value;
* **`Ty.decode_uncut`**, **`Value.encode_uncut`** — a limit that holds for the value itself is
  enough for each conversion, whatever else may go wrong in it;
* **`depthLimit_exact`** — all this of each entry point of the library.

`NeedsRoom` speaks of runs at any depth, so that it can be shown container by container. It leaves
open whether the conversion can succeed, which has nothing to do with the limit.
-/

namespace TypedJson

/-! ## The least limit -/

/-- The outcome under a limit, if `needed` is the least limit under which there is a result. -/
structure ExactAt {α : Type} (needed limit : Nat) (outcome : Except Error α) : Prop where
  succeeds_iff : (∃ r, outcome = .ok r) ↔ needed ≤ limit
  /-- A lower limit is all that is reported. -/
  cut : limit < needed → outcome = .error (.depthLimit limit)

/-- What is cut off by lower limits and not changed otherwise has an outcome for each limit that is
known from the least one. -/
theorem ExactAt.of_cutOff {α : Type} {run : Nat → Except Error α} {needed : Nat}
    (hcut : ∀ limit limit', limit ≤ limit' → CutOff (.depthLimit limit) (run limit) (run limit'))
    (hok : ∀ limit, (∃ r, run limit = .ok r) ↔ needed ≤ limit) (limit : Nat) :
    ExactAt needed limit (run limit) := by
  refine ⟨hok limit, fun hlow => ?_⟩
  rcases hcut limit needed (Nat.le_of_lt hlow) with hfails | hsame
  · exact hfails
  · obtain ⟨r, hr⟩ := (hok needed).mpr (Nat.le_refl needed)
    have hneeded : needed ≤ limit := (hok limit).mp ⟨r, hsame.trans hr⟩
    exact absurd hlow (Nat.not_lt.mpr hneeded)

/-- If the run ever gives a result, it does so exactly where there is room for `nesting`
containers. -/
def NeedsRoom {α : Type} (run : Depth → Except Error α) (nesting : Nat) : Prop :=
  (∃ depth r, run depth = .ok r) →
    ∀ depth : Depth, depth.current ≤ depth.limit →
      ((∃ r, run depth = .ok r) ↔ depth.HasRoom nesting)

namespace NeedsRoom

variable {α β γ : Type} {run : Depth → Except Error α} {nesting : Nat}

/-- What does not look at the depth needs no room. -/
theorem const (x : Except Error α) : NeedsRoom (fun _ => x) 0 := by
  rintro ⟨_, hresult⟩ depth hdepth
  exact iff_of_true hresult hdepth

theorem map (h : NeedsRoom run nesting) (f : α → β) :
    NeedsRoom (fun depth => (run depth).map f) nesting := by
  rintro ⟨depth₀, hresult⟩ depth hdepth
  rw [exists_map_eq_ok_iff]
  exact h ⟨depth₀, exists_map_eq_ok_iff.mp hresult⟩ depth hdepth

/-- **A container needs one more than the deepest of its contents.** -/
theorem container {xs : List β} {convert : Depth → β → Except Error γ} {inside : β → Nat}
    (hrun : ∀ depth, (∃ r, run depth = .ok r) ↔
      ∃ inner, depth.enter = .ok inner ∧ ∀ x ∈ xs, ∃ r, convert inner x = .ok r)
    (hcontents : ∀ x ∈ xs, NeedsRoom (fun depth => convert depth x) (inside x))
    (hpos : 0 < nesting) (hnesting : ∀ n, nesting ≤ n + 1 ↔ ∀ x ∈ xs, inside x ≤ n) :
    NeedsRoom run nesting := by
  rintro ⟨depth₀, hresult⟩ depth -
  obtain ⟨inner₀, -, hall⟩ := (hrun depth₀).mp hresult
  rw [hrun depth, Depth.hasRoom_iff hpos hnesting]
  -- both sides enter the container, and then ask the same of each of its contents
  refine exists_congr fun inner => and_congr_right fun henter => forall₂_congr fun x hx => ?_
  exact hcontents x hx ⟨inner₀, hall x hx⟩ inner (Depth.current_le_of_enter henter)

/-- From the outside the room is the limit. -/
theorem succeeds_iff (h : NeedsRoom run nesting) (hresult : ∃ limit r, run (.root limit) = .ok r)
    (limit : Nat) : (∃ r, run (.root limit) = .ok r) ↔ nesting ≤ limit := by
  obtain ⟨limit₀, r, hr⟩ := hresult
  rw [← Depth.hasRoom_root]
  exact h ⟨.root limit₀, r, hr⟩ (.root limit) (Nat.zero_le limit)

end NeedsRoom

/-! ## To JSON -/

theorem TypedArray.rebuiltNesting_pos (a : TypedArray) : 0 < (Value.array a).rebuiltNesting := by
  cases a
  exact Nat.succ_pos _

/-- A loop of conversions goes through exactly if each of them does. -/
theorem exists_mapM_iff {ε α β : Type} {f : α → Except ε β} {xs : List α} :
    (∃ ys, xs.mapM f = .ok ys) ↔ ∀ x ∈ xs, ∃ y, f x = .ok y := by
  simp only [mapM_eq_ok_iff]
  constructor
  · rintro ⟨ys, hys⟩ x hx
    obtain ⟨y, -, hy⟩ := exists_right_of_mem hys hx
    exact ⟨y, hy⟩
  · exact exists_forall₂

/-- Some arrays of scalars are copied once they are entered. Any other is converted if it can be
entered and each of its elements is converted then. -/
theorem TypedArray.exists_encode_cases (a : TypedArray) :
    ((∃ k, a.elementType = .scalar k) ∧
      ∀ depth, (∃ out, a.encode depth = .ok out) ↔ ∃ inner, depth.enter = .ok inner) ∨
    ∀ depth, (∃ out, a.encode depth = .ok out) ↔ ∃ inner, depth.enter = .ok inner ∧
      ∀ v ∈ a.toList, ∃ w, v.encodeElement a.elementType.isJsonCompatible inner = .ok w := by
  have hloop (h : ∀ depth, a.encode depth = depth.enter >>= fun inner =>
      Except.map (.ofBoxed .json)
        (a.toList.mapM (·.encodeElement a.elementType.isJsonCompatible inner))) (depth : Depth) :
      (∃ out, a.encode depth = .ok out) ↔ ∃ inner, depth.enter = .ok inner ∧
        ∀ v ∈ a.toList, ∃ w, v.encodeElement a.elementType.isJsonCompatible inner = .ok w := by
    simp only [h, bind_eq_ok_iff]
    rw [exists_comm]
    refine exists_congr fun inner => ?_
    rw [exists_and_left, exists_map_eq_ok_iff, exists_mapM_iff]
  have hcopy (h : ∀ depth, a.encode depth = depth.enter >>= fun _ => .ok (.ofBoxed .json a.toList))
      (depth : Depth) : (∃ out, a.encode depth = .ok out) ↔ ∃ inner, depth.enter = .ok inner := by
    simp [h, bind_eq_ok_iff]
  have hencode (depth : Depth) := a.encode_eq depth
  -- decimals and bytes are scalars, but their arrays are converted by the loop
  cases hty : a.elementType with
  | scalar k =>
    rw [hty] at hencode hloop
    cases k with
    | decimal | byte =>
      exact .inr (hloop fun depth => (hencode depth).trans (bind_congr fun _ => rfl))
    | _ => exact .inl ⟨⟨_, rfl⟩, hcopy hencode⟩
  | _ =>
    rw [hty] at hencode hloop
    exact .inr (hloop fun depth => (hencode depth).trans (bind_congr fun _ => rfl))

/-- An array needs one more than what is in it. Where it is copied nothing in it is entered, but
then it holds scalars. -/
theorem TypedArray.encode_needsRoom {a : TypedArray} (hchecked : (Value.array a).Checked)
    (hitems : ∀ v ∈ a.toList, ∀ allowed,
      NeedsRoom (fun depth => v.encodeElement allowed depth) v.rebuiltInside) :
    NeedsRoom (fun depth => a.encode depth) (Value.array a).rebuiltNesting := by
  rcases a.exists_encode_cases with ⟨⟨k, hk⟩, hcopy⟩ | hloop
  · have hscalars : ∀ v ∈ a.toList, v.rebuiltInside = 0 := by
      intro v hv
      have hadmits : (Ty.scalar k).admits v = true := hk ▸ hchecked v hv
      obtain ⟨s, rfl, -⟩ := Ty.exists_scalar_of_admits hadmits
      rfl
    have hnesting (n : Nat) :
        (Value.array a).rebuiltNesting ≤ n + 1 ↔ ∀ x ∈ ([] : List Value), x.rebuiltInside ≤ n := by
      refine rebuiltNesting_le_iff.trans (iff_of_true (fun v hv => ?_) (List.forall_mem_nil _))
      exact hscalars v hv ▸ Nat.zero_le n
    -- a copied array is entered and nothing more: a container with no contents
    have hrun (depth : Depth) : (∃ out, a.encode depth = .ok out) ↔
        ∃ inner, depth.enter = .ok inner ∧
          ∀ x ∈ ([] : List Value), ∃ w, x.encodeElement true inner = .ok w := by
      rw [hcopy depth]
      exact exists_congr fun inner => (and_iff_left (List.forall_mem_nil _)).symm
    exact .container hrun (List.forall_mem_nil _) a.rebuiltNesting_pos hnesting
  · exact .container hloop (fun v hv => hitems v hv _) a.rebuiltNesting_pos
      fun _ => rebuiltNesting_le_iff

/-- A map needs one more than what is in it. -/
theorem TypedMap.rebuild_needsRoom {m : TypedMap}
    (hentries : ∀ e ∈ m.entries,
      NeedsRoom (fun depth => e.2.encodeEntry .json depth) e.2.rebuiltInside) :
    NeedsRoom (fun depth => m.rebuild .json depth) (Value.map m).rebuiltNesting := by
  refine .container (fun _ => exists_rebuild_iff_entries) hentries (Nat.succ_pos _) fun n => ?_
  rw [rebuiltNesting_le_iff]
  simp only [Value.contents, List.forall_mem_map]

/-- Nothing but a JSON object, a map or a record is converted. -/
theorem Value.isMapping_of_encodeRecord {m out : TypedMap} {depth : Depth}
    (h : (Value.map m).encodeRecord depth = .ok out) : m.ty.isMapping = true := by
  by_contra hmapping
  have hrefused : (Value.map m).encodeRecord depth =
      .error (.incompatible Ty.json.name m.ty.name) := if_neg hmapping
  cases hrefused.symm.trans h

/-- What lies inside a container and conforms needs room for what is rebuilt of it. -/
theorem Value.Conforms.needsRoom {v : Value} (hconforms : v.Conforms) :
    (∀ allowed, NeedsRoom (fun depth => v.encodeElement allowed depth) v.rebuiltInside) ∧
      NeedsRoom (fun depth => v.encodeEntry .json depth) v.rebuiltInside := by
  induction v with
  | null => exact ⟨fun _ => .const _, .const _⟩
  | scalar s => exact ⟨fun _ => .const _, .const _⟩
  | array a ih =>
    obtain ⟨hchecked, hitems⟩ := everywhere_array.mp hconforms
    have harray := (TypedArray.encode_needsRoom hchecked fun v hv => (ih v hv (hitems v hv)).1).map
      Value.array
    exact ⟨fun _ => harray, harray⟩
  | map m ih =>
    obtain ⟨-, hentries⟩ := everywhere_map.mp hconforms
    have hmap : NeedsRoom (fun depth => m.encode .json depth) (Value.map m).rebuiltInside := by
      by_cases hobject : (Value.map m).IsJsonObject
      · -- an object is passed on, whatever is in it
        rw [TypedMap.rebuiltInside_of_json hobject]
        rintro - depth hdepth
        exact iff_of_true ⟨_, TypedMap.encodeEntry_object hobject .json depth⟩ hdepth
      · have hjson : m.ty.isJson = false := by
          rw [Bool.eq_false_iff]
          exact fun h => hobject (Ty.eq_json_of_isJson h)
        rintro ⟨depth₀, w, hw⟩
        have hmapping : m.ty.isMapping = true := TypedMap.isMapping_of_encode hw
        have hrebuild := (TypedMap.rebuild_needsRoom fun e he => (ih e he (hentries e he)).2).map
          Value.map
        rw [rebuiltInside_of_not_object hobject]
        exact (funext (TypedMap.encodeEntry_eq_rebuild hmapping hjson) ▸ hrebuild) ⟨depth₀, w, hw⟩
    exact ⟨fun _ => hmap, hmap⟩

/-! ## To text -/

/-- The text of a container shows all that is in it, so there must be room for all of it. -/
theorem Value.toText_exactAt {v : Value} (hcontainer : v.IsContainer) (limit : Nat) :
    ExactAt v.nesting limit (Ty.string.decode (.root limit) v) := by
  refine .of_cutOff (fun _ _ hlimit => Ty.string.decode_cutOff hlimit 0 v) (fun limit => ?_) limit
  have hchecks : (∃ w, Ty.string.decode (.root limit) v = .ok w) ↔
      v.checkNesting (.root limit) = .ok () := by
    simp only [Ty.decode_string_of_isContainer hcontainer, bind_eq_ok_iff]
    exact ⟨fun ⟨_, (), hcheck, _⟩ => hcheck, fun hcheck => ⟨_, (), hcheck, rfl⟩⟩
  exact hchecks.trans ((checkNesting_eq_ok_iff (Nat.zero_le limit)).trans Depth.hasRoom_root)

/-! ## A limit that is high enough -/

/-- The computation does not fail with a depth limit, be it with a label or bare. -/
def Uncut {α : Type} (x : Except Error α) : Prop :=
  ∀ e, x = .error e → ∀ limit, e.root ≠ .depthLimit limit

namespace Uncut

variable {α β σ : Type}

theorem ok (a : α) : Uncut (.ok a) := by
  intro e h
  cases h

theorem error {e : Error} (h : ∀ limit, e.root ≠ .depthLimit limit) :
    Uncut (.error e : Except Error α) := by
  intro e' heq
  exact Except.error.inj heq ▸ h

/-- The failures that a label is put on are not those of the limit. -/
theorem plain {e : Error} (h : e.IsPlain) : Uncut (.error e : Except Error α) := by
  refine error fun limit hroot => ?_
  cases e with
  | inField _ _ | frozen _ | depthLimit _ => exact h
  | _ => cases hroot

theorem bind {x : Except Error α} {f : α → Except Error β} (h : Uncut x)
    (hnext : ∀ a, x = .ok a → Uncut (f a)) : Uncut (x >>= f) := by
  cases x with
  | ok a => exact hnext a rfl
  | error e => exact fun e' heq => h e' (congrArg _ (Except.error.inj heq))

theorem map {x : Except Error α} (h : Uncut x) (f : α → β) : Uncut (x.map f) := by
  cases x with
  | ok a => exact ok (f a)
  | error e => exact fun e' heq => h e' (congrArg _ (Except.error.inj heq))

/-- A label does not make a failure one of the limit. -/
theorem annotate {x : Except Error α} (h : Uncut x) (label : String) :
    Uncut (x.mapError (Error.annotate label)) := by
  cases x with
  | ok a => exact ok a
  | error e =>
    refine error fun limit => ?_
    rw [Error.root_annotate]
    exact h e rfl limit

/-- A loop is not cut off when no step of it is, from any state. -/
theorem foldlM {step : σ → α → Except Error σ} {xs : List α}
    (hstep : ∀ x ∈ xs, ∀ s, Uncut (step s x)) (s : σ) : Uncut (xs.foldlM step s) := by
  induction xs generalizing s with
  | nil => exact ok s
  | cons x xs ih =>
    rw [List.foldlM_cons]
    refine (hstep x List.mem_cons_self s).bind fun next _ => ?_
    exact ih (fun y hy => hstep y (List.mem_cons_of_mem x hy)) next

theorem mapM {f : α → Except Error β} {xs : List α} (h : ∀ x ∈ xs, Uncut (f x)) :
    Uncut (xs.mapM f) := by
  induction xs with
  | nil => exact ok []
  | cons x xs ih =>
    rw [List.mapM_cons]
    refine (h x List.mem_cons_self).bind fun y _ => ?_
    exact (ih fun z hz => h z (List.mem_cons_of_mem x hz)).bind fun ys _ => ok (y :: ys)

end Uncut

/-- A write knows nothing of the limit. -/
theorem TypedArray.push_uncut (a : TypedArray) (v : Value) : Uncut (a.push v) := by
  rw [push_eq, set_eq]
  dsimp only
  -- the checks in their order: frozen, the index, the type, and last the storage
  split
  · exact .error fun _ => nofun
  · split
    · exact .plain trivial
    · split
      · exact .plain trivial
      · split
        · exact .ok _
        · exact .plain trivial

/-- The checks of `put` do not know of a limit. -/
theorem TypedMap.put_uncut (m : TypedMap) (key : String) (v : Value) : Uncut (m.put key v) := by
  rw [put_eq]
  split
  · exact .error fun _ => nofun
  · split
    · rename_i e hrejected
      exact .plain (m.isPlain_of_rejection? key hrejected)
    · exact .ok _

theorem TypedArray.store_uncut (out : TypedArray) (index : Nat) {converted : Except Error Value}
    (h : Uncut converted) : Uncut (out.store index converted) :=
  (h.bind fun v _ => out.push_uncut v).annotate _

theorem TypedMap.store_uncut (out : TypedMap) (key : String) {converted : Except Error Value}
    (h : Uncut converted) : Uncut (out.store key converted) :=
  (h.bind fun v _ => out.put_uncut key v).annotate key

/-! ### From JSON -/

/-- The conversion is not cut off where there is room for the value. -/
def FitsRoom {α : Type} (convert : Depth → Value → Except Error α) : Prop :=
  ∀ (depth : Depth) (v : Value), depth.HasRoom v.nesting → Uncut (convert depth v)

/-- Of the scalar types only `string` looks into containers. -/
theorem ScalarKind.decode_uncut (k : ScalarKind) : FitsRoom k.decode := by
  intro depth v hroom
  have hdepth : depth.current ≤ depth.limit := Nat.le_of_add_right_le hroom
  unfold decode
  split
  case h_5 =>
    -- a float, which is a decimal or is not
    split
    · exact .ok _
    · exact .plain trivial
  case h_9 =>
    -- the text of a value, which is the one conversion that looks for containers
    rw [(Value.checkNesting_eq_ok_iff hdepth).mpr hroom]
    exact .ok _
  all_goals first
    | exact .ok _
    | exact .plain trivial

/-- With room for an array there is room for its elements one level further in, so no element is cut
off. -/
theorem TypedArray.decodeWith_uncut (elementType : Ty)
    {convert : Depth → Value → Except Error Value} (hconvert : FitsRoom convert) :
    FitsRoom (decodeWith elementType convert) := by
  intro depth v hroom
  cases v with
  | array source =>
    obtain ⟨inner, henter, hinside⟩ := hasRoom_iff.mp hroom
    have hitems (v) (hv : v ∈ source.toList) : Uncut (convert inner v) :=
      hconvert inner v (hinside v hv)
    have hcollect (out : TypedArray) : Uncut (collect (convert inner) source.toList out) :=
      .foldlM (fun v hv out => (hitems v hv).bind fun w _ => out.push_uncut w) out
    have hlabelled (out : TypedArray) :
        Uncut (collectLabelled (convert inner) 0 source.toList out) := by
      rw [collectLabelled_eq_foldlM]
      refine .foldlM (fun p hp out => out.store_uncut p.2 (hitems p.1 ?_)) out
      exact List.fst_mem_of_mem_zipIdx hp
    unfold decodeWith
    rw [henter]
    -- which loop runs is a matter of the element type
    cases elementType with
    | scalar k =>
      cases k with
      | byte => exact hlabelled _
      | _ => exact hcollect _
    | any => exact .ok _
    | _ => exact hlabelled _
  | _ => exact .plain trivial

theorem TypedMap.decodeWith_uncut (constraint : Option Ty)
    {convert : Depth → Value → Except Error Value} (hconvert : FitsRoom convert) :
    FitsRoom (decodeWith constraint convert) := by
  intro depth v hroom
  unfold decodeWith
  cases hobject : v.asObject? with
  | none => exact .plain trivial
  | some source =>
    cases Value.eq_map_of_asObject? hobject
    obtain ⟨inner, henter, hinside⟩ := hasRoom_iff.mp hroom
    rw [henter]
    exact .foldlM (fun e he out => out.store_uncut e.1 (hconvert inner e.2 (hinside e he))) _

theorem TypedMap.decode_uncut (constraint : Option Ty)
    (hvalues : ∀ t, constraint = some t → FitsRoom t.decode) : FitsRoom (decode constraint) := by
  cases constraint with
  | none => exact decodeWith_uncut none fun _ v _ => .ok v
  | some t =>
    refine decodeWith_uncut (some t) ?_
    -- values of `any` and of `json` are taken as they are
    split
    · exact fun _ v _ => .ok v
    · exact hvalues t rfl

/-- The fields of a record are read from the entries of the source, for which there is room;
defaults are not entered. -/
theorem RecordTy.decode_uncut (r : RecordTy) (hfields : ∀ f ∈ r.fields, FitsRoom f.2.ty.decode) :
    FitsRoom r.decode := by
  intro depth v hroom
  rw [decode_eq]
  cases hobject : v.asObject? with
  | none => exact .plain trivial
  | some source =>
    cases Value.eq_map_of_asObject? hobject
    obtain ⟨inner, henter, hinside⟩ := TypedMap.hasRoom_iff.mp hroom
    rw [henter]
    refine .foldlM (fun f hf out => out.store_uncut f.1 ?_) _
    cases hx : source.get? f.1 with
    | none =>
      rw [Field.decode_none]
      exact .ok f.2.default
    | some x =>
      rw [Field.decode_some]
      exact hfields f hf inner x (hinside _ (Entries.mem_of_lookup hx))

/-- **Conversion from JSON is not cut off where there is room for the source.** -/
theorem Ty.decode_uncut (t : Ty) : FitsRoom t.decode := by
  induction t with
  | scalar k => exact k.decode_uncut
  | json =>
    intro depth v hroom
    rw [decode]
    split
    · exact .ok v
    · exact .plain trivial
  | any => exact fun _ v _ => .ok v
  | null =>
    intro depth v hroom
    rw [decode]
    split
    · exact .ok _
    · exact .plain trivial
  | union members nullable ih =>
    intro depth v hroom
    rw [decode, decodeOnly_eq]
    split
    · exact .ok _
    · -- a union enters no container itself, its only member may
      cases hmembers : nonNull members with
      | nil => exact .plain trivial
      | cons only rest =>
        cases rest with
        | nil => exact ih only (mem_of_nonNull hmembers) depth v hroom
        | cons _ _ => exact .plain trivial
  | array element ih =>
    intro depth v hroom
    exact (TypedArray.decodeWith_uncut element ih depth v hroom).map Value.array
  | openMap =>
    intro depth v hroom
    exact (TypedMap.decode_uncut none (by simp) depth v hroom).map Value.map
  | mapOf t ih =>
    have hvalues (u : Ty) (h : some t = some u) : FitsRoom u.decode := Option.some.inj h ▸ ih
    intro depth v hroom
    exact (TypedMap.decode_uncut (some t) hvalues depth v hroom).map Value.map
  | record r ih _ =>
    intro depth v hroom
    exact (r.decode_uncut ih depth v hroom).map Value.map

/-! ### To JSON -/

theorem Scalar.encode_uncut (s : Scalar) (allowed : Bool) : Uncut (s.encode allowed) := by
  unfold encode
  split
  · exact .ok _
  · exact .plain trivial

/-- With room for an array, it is entered and its elements are encoded without a cut. -/
theorem TypedArray.encode_uncut {a : TypedArray}
    (hitems : ∀ v ∈ a.toList, ∀ depth : Depth, depth.HasRoom v.nesting → ∀ allowed,
      Uncut (v.encodeElement allowed depth)) {depth : Depth}
    (hroom : depth.HasRoom (Value.array a).nesting) : Uncut (a.encode depth) := by
  obtain ⟨inner, henter, hinside⟩ := hasRoom_iff.mp hroom
  have hloop : Uncut (a.toList.mapM (·.encodeElement a.elementType.isJsonCompatible inner)) :=
    .mapM fun v hv => hitems v hv inner (hinside v hv) _
  rw [encode_eq]
  refine Uncut.bind (henter ▸ .ok inner) fun entered hentered => ?_
  cases henter.symm.trans hentered
  split
  case h_5 => exact hloop.bind fun ws _ => .ok _
  all_goals exact .ok _

theorem TypedMap.rebuild_uncut {m : TypedMap} {target : Ty}
    (hentries : ∀ e ∈ m.entries, ∀ depth : Depth, depth.HasRoom e.2.nesting →
      Uncut (e.2.encodeEntry target depth)) {depth : Depth}
    (hroom : depth.HasRoom (Value.map m).nesting) : Uncut (m.rebuild target depth) := by
  obtain ⟨inner, henter, hinside⟩ := hasRoom_iff.mp hroom
  rw [rebuild_eq, henter]
  refine .foldlM (fun e he out => out.store_uncut e.1 ?_) _
  exact hentries e he inner (hinside e he)

/-- **Conversion to JSON is not cut off where there is room for the value**, of elements and of
entries. -/
theorem Value.encode_uncut {v : Value} {depth : Depth} (hroom : depth.HasRoom v.nesting) :
    (∀ allowed, Uncut (v.encodeElement allowed depth)) ∧
      ∀ target, Uncut (v.encodeEntry target depth) := by
  -- elements and entries call each other, so both are in one statement
  induction v generalizing depth with
  | null => exact ⟨fun _ => .ok Value.null, fun _ => .ok Value.null⟩
  | scalar s => exact ⟨fun allowed => s.encode_uncut allowed, fun _ => s.encode_uncut true⟩
  | array a ih =>
    have harray : Uncut ((a.encode depth).map Value.array) :=
      (TypedArray.encode_uncut (fun v hv _ h => (ih v hv h).1) hroom).map Value.array
    exact ⟨fun _ => harray, fun _ => harray⟩
  | map m ih =>
    have hmap (target : Ty) : Uncut (m.encode target depth) := by
      have hrebuild : Uncut (m.rebuild target depth) :=
        TypedMap.rebuild_uncut (fun e he _ h => (ih e he h).2 target) hroom
      rw [TypedMap.encode_eq]
      split
      · exact .ok _
      · exact hrebuild.map Value.map
      · exact hrebuild.map Value.map
      · exact .plain trivial
    exact ⟨fun _ => hmap .json, hmap⟩

theorem Value.encodeMember_uncut {v : Value} {depth : Depth} (hroom : depth.HasRoom v.nesting)
    (target : Ty) : Uncut (v.encodeMember target depth) := by
  cases v with
  | array a => exact .plain trivial
  | _ => exact (encode_uncut hroom).2 target

theorem Value.encodeRecord_uncut {v : Value} {depth : Depth} (hroom : depth.HasRoom v.nesting) :
    Uncut (v.encodeRecord depth) := by
  cases v with
  | map m =>
    rw [encodeRecord]
    split
    · exact TypedMap.rebuild_uncut (fun e _ _ h => (encode_uncut h).2 .json) hroom
    · exact .plain trivial
  | _ => exact .plain trivial

/-! ## Entry points -/

/-- **The depth limit is exact.** To JSON a conforming container that can be converted at all is
converted exactly under the limits from the nesting of what is rebuilt on, and any container has a
text exactly under those from its nesting on; every lower limit is reported as it is. And a limit
that holds for the value itself is never reported, whatever the conversion and its target. -/
theorem depthLimit_exact (limit : Nat) :
    (∀ a : TypedArray, (Value.array a).Conforms →
      (∃ high out, a.encode (.root high) = .ok out) →
        ExactAt (Value.array a).rebuiltNesting limit (a.encode (.root limit))) ∧
    (∀ v : Value, v.Conforms → (∃ high out, v.encodeRecord (.root high) = .ok out) →
      ExactAt v.rebuiltNesting limit (v.encodeRecord (.root limit))) ∧
    (∀ v : Value, v.IsContainer → ExactAt v.nesting limit (Ty.string.decode (.root limit) v)) ∧
    ∀ v : Value, v.nesting ≤ limit →
      (∀ t : Ty, Uncut (t.decode (.root limit) v)) ∧
      (∀ r : RecordTy, Uncut (r.decode (.root limit) v)) ∧
      (∀ element : Ty, Uncut (TypedArray.decode element (.root limit) v)) ∧
      (∀ constraint : Option Ty, Uncut (TypedMap.decode constraint (.root limit) v)) ∧
      (∀ a : TypedArray, v = .array a → Uncut (a.encode (.root limit))) ∧
      (∀ (m : TypedMap) (target : Ty), v = .map m → Uncut (m.rebuild target (.root limit))) ∧
      (∀ target : Ty, Uncut (v.encodeMember target (.root limit))) ∧
      Uncut (v.encodeRecord (.root limit)) ∧
      ∀ (object : TypedMap) (key : String) (target : Ty),
        Uncut (object.putEncoded key v target (.root limit)) := by
  refine ⟨fun a hconforms hresult => ?_, fun v hconforms hresult => ?_,
    fun v hcontainer => Value.toText_exactAt hcontainer limit, fun v hnesting => ?_⟩
  · obtain ⟨hchecked, hitems⟩ := Value.everywhere_array.mp hconforms
    have hneeds := TypedArray.encode_needsRoom hchecked fun v hv =>
      (Value.Conforms.needsRoom (hitems v hv)).1
    refine .of_cutOff (fun _ _ hlimit => ?_) (hneeds.succeeds_iff hresult) limit
    exact a.encode_cutOff hlimit (fun v _ => (v.encode_cutOff hlimit).1) 0
  · refine .of_cutOff (fun _ _ hlimit => v.encodeRecord_cutOff hlimit) (fun limit => ?_) limit
    obtain ⟨high, out, hout⟩ := hresult
    -- some limit was high enough, so the value is a map of a mapping type
    obtain ⟨m, rfl, hm⟩ := Value.encodeRecord_eq_ok hout
    have hmapping : m.ty.isMapping = true := Value.isMapping_of_encodeRecord hout
    obtain ⟨-, hentries⟩ := Value.everywhere_map.mp hconforms
    have hneeds := TypedMap.rebuild_needsRoom fun e he =>
      (Value.Conforms.needsRoom (hentries e he)).2
    have hrecord (depth : Depth) : (Value.map m).encodeRecord depth = m.rebuild .json depth :=
      if_pos hmapping
    exact hrecord (.root limit) ▸ hneeds.succeeds_iff ⟨high, out, hm⟩ limit
  · have hroom : (Depth.root limit).HasRoom v.nesting := Depth.hasRoom_root.mpr hnesting
    refine ⟨fun t => t.decode_uncut _ v hroom,
      fun r => r.decode_uncut (fun f _ => f.2.ty.decode_uncut) _ v hroom,
      fun element => TypedArray.decodeWith_uncut element element.decode_uncut _ v hroom,
      fun constraint => TypedMap.decode_uncut constraint (fun t _ => t.decode_uncut) _ v hroom,
      ?_, ?_, Value.encodeMember_uncut hroom, Value.encodeRecord_uncut hroom,
      fun object key target => ?_⟩
    · rintro a rfl
      exact TypedArray.encode_uncut (fun x _ _ h => (Value.encode_uncut h).1) hroom
    · rintro m target rfl
      exact TypedMap.rebuild_uncut (fun e _ _ h => (Value.encode_uncut h).2 target) hroom
    · rw [TypedMap.putEncoded_eq]
      exact object.store_uncut key ((Value.encode_uncut hroom).2 target)

/-- Three containers inside each other, the innermost of them an object. -/
def TypedMap.shelf : TypedMap :=
  ⟨.openMap, [("rows", .array (.ofBoxed .any [.map ⟨.json, [("id", .int 1)], false⟩])),
    ("tag", .string "t")], false⟩

/-- The object is passed on to JSON, so there two are enough. Its text takes all three. -/
theorem depthLimit_exact_shelf :
    (Value.map .shelf).Conforms ∧
      (Value.map .shelf).encodeRecord (.root 1) = .error (.depthLimit 1) ∧
      (∃ out, (Value.map .shelf).encodeRecord (.root 2) = .ok out) ∧
      Ty.string.decode (.root 2) (.map .shelf) = .error (.depthLimit 2) ∧
      (∃ text, Ty.string.decode (.root 3) (.map .shelf) = .ok text) ∧
      Uncut (Ty.int.decode (.root 3) (.map .shelf)) := by
  have hconforms : (Value.map .shelf).Conforms := by
    simp [Value.Conforms, TypedMap.shelf]
    decide
  have hconverted : ∃ high out, (Value.map .shelf).encodeRecord (.root high) = .ok out :=
    ⟨9, _, rfl⟩
  have hrebuilt : (Value.map .shelf).rebuiltNesting = 2 := rfl
  have hnesting : (Value.map .shelf).nesting = 3 := rfl
  have hrecord (limit : Nat) := (depthLimit_exact limit).2.1 _ hconforms hconverted
  have htext (limit : Nat) := (depthLimit_exact limit).2.2.1 (.map .shelf) trivial
  have huncut := (depthLimit_exact 3).2.2.2 (.map .shelf) (Nat.le_of_eq hnesting)
  rw [hrebuilt] at hrecord
  rw [hnesting] at htext
  exact ⟨hconforms, (hrecord 1).cut (by decide), (hrecord 2).succeeds_iff.mpr (by decide),
    (htext 2).cut (by decide), (htext 3).succeeds_iff.mpr (by decide), huncut.1 .int⟩

end TypedJson
