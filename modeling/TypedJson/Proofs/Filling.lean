import TypedJson.Proofs.Building
import TypedJson.Proofs.Limits
import TypedJson.Proofs.Nesting
import TypedJson.Proofs.Positions

/-!
# TypedJson — conversions fill places

A conversion to a container writes to what it builds, and each of its loops does so in its own way.
Where only the failure matters, all of them are one loop of checks over the places of the container:

* **`Ty.decode_of_mismatch?`** — a value that does not match as a whole is refused;
* **`Place.fill`** — the check of one place: what comes from its origin, and what the container
  says;
* **`Ty.sameOutcome_decode`** — a conversion that goes into a value fails where the places, filled
  in order, fail first, and with the same error.
-/

namespace TypedJson

/-! ## Values as a whole -/

/-- A mismatch with a scalar is answered before anything is read, so under every limit with the same
error. -/
theorem ScalarKind.decode_of_mismatch? {k : ScalarKind} {v : Value} {e : Error}
    (h : k.mismatch? v = some e) (depth : Depth) : k.decode depth v = .error e := by
  unfold mismatch? at h
  split at h
  · cases h
  · rename_i hconverts
    cases v with
    | scalar s =>
      cases k <;> cases s <;> first
        | exact absurd rfl hconverts
        | exact congrArg Except.error (Option.some.inj h)
        | skip
      -- a float is converted to a decimal where there is one
      rename_i x
      cases hx : Decimal.ofBinary64? x with
      | some d => simp [converts, hx] at hconverts
      | none =>
        simp only [decode, hx]
        exact congrArg Except.error (Option.some.inj h)
    | _ =>
      cases k <;> first
        | exact absurd rfl hconverts
        | exact congrArg Except.error (Option.some.inj h)

/-- The check of the nesting has one failure. -/
theorem Value.checkNesting_outcome (v : Value) (depth : Depth) :
    v.checkNesting depth = .ok () ∨ v.checkNesting depth = .error (.depthLimit depth.limit) := by
  obtain ⟨current, limit⟩ := depth
  -- under a limit with room for everything the check passes, and a smaller limit changes an outcome
  -- only by cutting off
  have hroom : v.checkNesting ⟨current, limit + current + v.nesting⟩ = .ok () := by
    refine (checkNesting_eq_ok_iff ?_).mpr ?_
    · show current ≤ limit + current + v.nesting
      omega
    · show current + v.nesting ≤ limit + current + v.nesting
      omega
  have hlimit : limit ≤ limit + current + v.nesting := by omega
  rcases v.checkNesting_cutOff hlimit current with hcut | hsame
  · exact .inr hcut
  · exact .inl (hsame.trans hroom)

/-- Where a scalar does not mismatch, the conversion gives a value. Only the text of a container can
still be cut off, and a string is the one scalar made from a container. -/
theorem ScalarKind.decode_of_converts {k : ScalarKind} {v : Value} (h : k.mismatch? v = none)
    (depth : Depth) :
    (∃ w, k.decode depth v = .ok w) ∨ k.decode depth v = .error (.depthLimit depth.limit) := by
  have hconverts : k.converts v = true := by
    unfold mismatch? at h
    split at h
    · assumption
    · split at h <;> cases h
  -- a container has a conversion to `string` only, and there the depth matters
  let text : Except Error Value := v.checkNesting depth >>= fun _ => .ok (.string v.text)
  have htext : (∃ w, text = .ok w) ∨ text = .error (.depthLimit depth.limit) := by
    rcases v.checkNesting_outcome depth with hok | hcut
    · exact .inl ⟨.string v.text, by simp only [text, hok]; rfl⟩
    · exact .inr (by simp only [text, hcut]; rfl)
  cases v with
  | scalar s =>
    cases k <;> cases s <;> first
      | exact .inl ⟨_, rfl⟩
      | cases hconverts
      | skip
    rename_i x
    cases hx : Decimal.ofBinary64? x with
    | some d =>
      simp only [decode, hx]
      exact .inl ⟨_, rfl⟩
    | none => simp [converts, hx] at hconverts
  | _ =>
    cases k <;> first
      | exact htext
      | cases hconverts

/-- **A value that does not match as a whole is refused** with what is said there. -/
theorem Ty.decode_of_mismatch? {t : Ty} {v : Value} {e : Error} (h : t.mismatch? v = some e)
    (depth : Depth) : t.decode depth v = .error e := by
  cases t with
  | scalar k => exact ScalarKind.decode_of_mismatch? h depth
  | any => cases h
  | json =>
    obtain ⟨hadmits, ⟨⟩⟩ := Option.ite_none_left_eq_some.mp h
    exact if_neg hadmits
  | null =>
    obtain ⟨hnull, ⟨⟩⟩ := Option.ite_none_left_eq_some.mp h
    exact if_neg hnull
  | union members nullable =>
    obtain ⟨hcheck, ⟨⟩⟩ := Option.ite_none_left_eq_some.mp h
    obtain ⟨hnull, hlength⟩ : (v.isNull && nullable) = false ∧ (nonNull members).length ≠ 1 := by
      simpa using hcheck
    rw [decode, hnull, if_neg Bool.false_ne_true, decodeOnly_eq]
    -- neither no alternative nor several of them can be read: the two shapes of the list that are
    -- left
    cases hmembers : nonNull members with
    | nil => rfl
    | cons only rest =>
      cases rest with
      | nil => simp [hmembers] at hlength
      | cons second rest => rfl
  | array element =>
    obtain ⟨hshape, ⟨⟩⟩ := Option.ite_none_left_eq_some.mp h
    cases v with
    | array a => exact absurd rfl hshape
    | _ => rfl
  | map constraint =>
    obtain ⟨hshape, ⟨⟩⟩ := Option.ite_none_left_eq_some.mp h
    have hnone : v.asObject? = none := by simpa [Value.isObject] using hshape
    cases constraint <;> simp [decode, decodeMap, TypedMap.decodeWith, hnone, Except.map]
  | record r =>
    obtain ⟨hshape, ⟨⟩⟩ := Option.ite_none_left_eq_some.mp h
    have hnone : v.asObject? = none := by simpa [Value.isObject] using hshape
    simp [decode, RecordTy.decode_eq, hnone, Except.map]

/-! ## Filling a place -/

theorem Depth.enter_eq_error {depth : Depth} {e : Error} (h : depth.enter = .error e) :
    e = .depthLimit depth.limit := by
  unfold enter at h
  split at h <;> cases h
  rfl

/-- What comes from there at some depth. -/
def Origin.outcome (depth : Depth) : Origin → Except Error Value
  | converted t v => t.decode depth v
  | taken v => .ok v

/-- What the container says to a value in the place. -/
def Place.check (place : Place) (w : Value) : Except Error Unit :=
  match place.rejection? w with
  | some e => .error e
  | none => .ok ()

/-- Fills a place: what comes from its origin is checked, and a failure gets the label. -/
def Place.fill (place : Place) (depth : Depth) : Except Error Unit :=
  (place.origin.outcome depth >>= place.check).mapError (.passedOn place.label?)

theorem Place.check_eq_ok_iff {place : Place} {w : Value} :
    place.check w = .ok () ↔ place.rejection? w = none := by
  unfold check
  cases place.rejection? w <;> simp

theorem Place.fill_eq_ok_iff {place : Place} {depth : Depth} :
    place.fill depth = .ok () ↔
      ∃ w, place.origin.outcome depth = .ok w ∧ place.rejection? w = none := by
  rw [fill, mapError_eq_ok_iff, bind_eq_ok_iff]
  simp only [check_eq_ok_iff]

/-- A place is not filled because there is no value for it or because the container rejects it. -/
theorem Place.fill_eq_error {place : Place} {depth : Depth} {err : Error}
    (h : place.fill depth = .error err) :
    ∃ e, err = e.passedOn place.label? ∧ (place.origin.outcome depth = .error e ∨
      ∃ w, place.origin.outcome depth = .ok w ∧ place.rejection? w = some e) := by
  unfold fill at h
  -- the value was not there, or it was and the container refused it
  cases houtcome : place.origin.outcome depth with
  | error e =>
    rw [houtcome] at h
    exact ⟨e, (Except.error.inj h).symm, .inl rfl⟩
  | ok w =>
    rw [houtcome] at h
    replace h : (place.check w).mapError (.passedOn place.label?) = .error err := h
    unfold check at h
    cases hrejection : place.rejection? w with
    | none =>
      rw [hrejection] at h
      cases h
    | some e =>
      rw [hrejection] at h
      exact ⟨e, (Except.error.inj h).symm, .inr ⟨w, rfl, hrejection⟩⟩

/-! ## Loops that build -/

/-- An array that is built rejects what its element type does not admit. -/
theorem TypedArray.Building.push_of_not_admits {t : Ty} {out : TypedArray} {w : Value}
    (hout : out.Building t) (h : t.admits w = false) :
    out.push w = .error (.inherentType t.name w.typeName) := by
  obtain ⟨rfl, hthawed, -⟩ := hout
  simp [TypedArray.push_eq, TypedArray.set_eq, hthawed, h]

/-- What the empty object rejects is rejected after any entries: the check reads the type of the
object alone. -/
theorem TypedMap.Building.put_of_rejected {t : Ty} {out : TypedMap} {key : String} {w : Value}
    {e : Error} (hout : out.Building t) (h : (TypedMap.empty t).rejection? key w = some e) :
    out.put key w = .error e := by
  have hrejected : out.rejection? key w = some e :=
    (rejection?_congr (n := TypedMap.empty t) hout.ty).trans h
  simp [TypedMap.put_eq, hout.thawed, hrejected]

/-- A checked write does what the check of its place says. -/
theorem Place.sameOutcome_push {place : Place} {t : Ty} {out : TypedArray} {w : Value}
    (hplace : place.rejection? w =
      if t.admits w then none else some (.inherentType t.name w.typeName))
    (hout : out.Building t) :
    SameOutcome (fun after _ => after.Building t) (out.push w) (place.check w) := by
  unfold check
  cases hadmits : t.admits w with
  | true =>
    obtain ⟨after, hafter⟩ := hout.push_of_admits hadmits
    rw [hplace, hadmits, if_pos rfl, hafter]
    exact .ok (hout.push hafter)
  | false =>
    rw [hplace, hadmits, if_neg Bool.false_ne_true, hout.push_of_not_admits hadmits]
    exact .error _

/-- Putting an entry in the object under construction has the outcome of the check of its place. -/
theorem Place.sameOutcome_put {place : Place} {t : Ty} {out : TypedMap} {key : String} {w : Value}
    (hplace : place.rejection? w = (TypedMap.empty t).rejection? key w) (hout : out.Building t) :
    SameOutcome (fun after _ => after.Building t) (out.put key w) (place.check w) := by
  unfold check
  rw [hplace]
  cases hrejection : (TypedMap.empty t).rejection? key w with
  | none =>
    have haccepted : out.rejection? key w = none :=
      (TypedMap.rejection?_congr (n := TypedMap.empty t) hout.ty).trans hrejection
    obtain ⟨after, hafter⟩ := hout.put_of_accepted haccepted
    rw [hafter]
    exact .ok (hout.put hafter)
  | some e =>
    rw [hout.put_of_rejected hrejection]
    exact .error e

/-- A step of a loop that builds does what filling the place does. -/
theorem Place.sameOutcome_fill {σ : Type} {I : σ → Prop} (place : Place) {inner : Depth}
    {write : Value → Except Error σ}
    (hwrite : ∀ w, SameOutcome (fun after _ => I after) (write w) (place.check w)) :
    SameOutcome (fun after _ => I after)
      ((place.origin.outcome inner >>= write).mapError (.passedOn place.label?))
      (place.fill inner) := by
  have hsame : SameOutcome Eq (place.origin.outcome inner) (place.origin.outcome inner) :=
    .refl (fun _ => rfl) _
  refine (hsame.bind ?_).mapError
  rintro w _ rfl
  exact hwrite w

theorem mapError_passedOn_none {α : Type} (x : Except Error α) :
    x.mapError (.passedOn none) = x := by
  cases x <;> rfl

/-- Both loops that build arrays are one, with labels or without. -/
theorem TypedArray.decode_eq_foldlM {element : Ty} (hany : element.isAny = false) (depth : Depth)
    (source : TypedArray) :
    decode element depth (.array source) = depth.enter >>= fun inner =>
      source.toList.zipIdx.foldlM (fun (out : TypedArray) p =>
        (element.decode inner p.1 >>= out.push).mapError (.passedOn (element.elementLabel? p.2)))
        (.empty element) := by
  refine bind_congr fun inner => ?_
  have hcollect : collect (element.decode inner) source.toList (.empty element) =
      source.toList.zipIdx.foldlM (fun (out : TypedArray) p =>
        (element.decode inner p.1 >>= out.push).mapError (.passedOn none)) (.empty element) := by
    simp only [mapError_passedOn_none]
    exact collect_eq_foldlM _ _ _
  have hlabelled : collectLabelled (element.decode inner) 0 source.toList (.empty element) =
      source.toList.zipIdx.foldlM (fun (out : TypedArray) p =>
        (element.decode inner p.1 >>= out.push).mapError
          (.passedOn (some ("[" ++ toString p.2 ++ "]")))) (.empty element) :=
    collectLabelled_eq_foldlM _ 0 _ _
  -- which loop runs is a matter of the element type, and so is the label
  cases element with
  | scalar k =>
    cases k with
    | byte => exact hlabelled
    | _ => exact hcollect
  | any => cases hany
  | _ => exact hlabelled

/-- A conversion to an array fills its places one by one. -/
theorem TypedArray.sameOutcome_decode (element : Ty) (depth : Depth) (source : TypedArray) :
    SameOutcome (fun _ _ => True) (decode element depth (.array source))
      (depth.enter >>= fun inner =>
        forM ((Ty.array element).places (.array source)) (·.fill inner)) := by
  have henter : SameOutcome Eq depth.enter depth.enter := .refl (fun _ => rfl) _
  cases hany : element.isAny with
  | false =>
    rw [decode_eq_foldlM hany]
    refine henter.bind ?_
    rintro inner _ rfl
    refine (SameOutcome.foldlM_forM (I := fun out => out.Building element) ?_
      (Building.ofEmpty element)).mono fun _ _ _ => trivial
    intro p _ out hout
    exact Place.sameOutcome_fill (element.elementPlace p) fun w =>
      Place.sameOutcome_push rfl hout
  | true =>
    -- elements of `any` are not converted, and there is nothing that `any` does not admit
    obtain rfl : element = .any := by cases element <;> first | rfl | cases hany
    refine henter.bind ?_
    rintro inner _ rfl
    have hfilled : forM ((Ty.array .any).places (.array source)) (Place.fill · inner) = .ok () := by
      refine forM_eq_ok_iff.mpr fun place hplace => ?_
      obtain ⟨p, -, rfl⟩ := List.mem_map.mp hplace
      exact Place.fill_eq_ok_iff.mpr ⟨p.1, rfl, rfl⟩
    rw [hfilled]
    exact .ok trivial

/-- A conversion to a map fills its places one by one. -/
theorem TypedMap.sameOutcome_decode (constraint : Option Ty) (depth : Depth) {v : Value}
    {source : TypedMap} (hsource : v.asObject? = some source) :
    SameOutcome (fun _ _ => True) (decode constraint depth v)
      (depth.enter >>= fun inner => forM ((Ty.map constraint).places v) (·.fill inner)) := by
  have henter : SameOutcome Eq depth.enter depth.enter := .refl (fun _ => rfl) _
  -- with and without a constraint the loop is the same, up to what converts an entry
  have hwith {convert : Depth → Value → Except Error Value}
      (hconvert : ∀ inner x, convert inner x = (Ty.entryOrigin constraint x).outcome inner) :
      SameOutcome (fun _ _ => True) (decodeWith constraint convert depth v)
        (depth.enter >>= fun inner => forM ((Ty.map constraint).places v) (·.fill inner)) := by
    simp only [decodeWith, Ty.places, hsource]
    refine henter.bind ?_
    rintro inner _ rfl
    refine (SameOutcome.foldlM_forM (I := fun out => out.Building (.map constraint)) ?_
      (Building.ofEmpty _)).mono fun _ _ _ => trivial
    rintro ⟨key, x⟩ _ out hout
    simp only [store, hconvert]
    exact Place.sameOutcome_fill (Ty.entryPlace constraint (key, x)) fun w =>
      Place.sameOutcome_put rfl hout
  cases constraint with
  | none => exact hwith fun _ _ => rfl
  | some t => exact hwith fun _ _ => by cases t <;> rfl

/-- Reading a record is filling the places of its declared fields in declaration order; the other
entries of the object are not looked at. -/
theorem RecordTy.sameOutcome_decode (r : RecordTy) (depth : Depth) {v : Value}
    {source : TypedMap} (hsource : v.asObject? = some source) :
    SameOutcome (fun _ _ => True) (r.decode depth v)
      (depth.enter >>= fun inner => forM ((Ty.record r).places v) (·.fill inner)) := by
  have henter : SameOutcome Eq depth.enter depth.enter := .refl (fun _ => rfl) _
  simp only [decode_eq, Ty.places, hsource]
  refine henter.bind ?_
  rintro inner _ rfl
  refine (SameOutcome.foldlM_forM (I := fun out => out.Building (.record r)) ?_
    (TypedMap.Building.ofEmpty _)).mono fun _ _ _ => trivial
  intro f _ out hout
  -- an absent key takes the default of its field and a present one is converted
  have horigin : f.2.decode inner (source.get? f.1) =
      (f.2.origin (source.get? f.1)).outcome inner := by
    cases source.get? f.1 with
    | none => exact Field.decode_none f.2 inner
    | some x => exact Field.decode_some f.2 inner x
  rw [TypedMap.store, horigin]
  exact Place.sameOutcome_fill (r.fieldPlace source f) fun w =>
    Place.sameOutcome_put rfl hout

/-- **A conversion that goes into a value fills the places of the new container**, one by one. -/
theorem Ty.sameOutcome_decode {t : Ty} {v : Value} (hopens : t.opens v = true) (depth : Depth) :
    SameOutcome (fun _ _ => True) (t.decode depth v)
      (depth.enter >>= fun inner => forM (t.places v) (·.fill inner)) := by
  have hforget {α : Type} {x : Except Error α} {y : Except Error Unit} {f : α → Value}
      (h : SameOutcome (fun _ _ => True) x y) : SameOutcome (fun _ _ => True) (x.map f) y := by
    cases h with
    | ok _ => exact .ok trivial
    | error e => exact .error e
  cases t with
  | array element =>
    cases v with
    | array source => exact hforget (TypedArray.sameOutcome_decode element depth source)
    | _ => cases hopens
  | map constraint =>
    obtain ⟨source, hsource⟩ := Option.isSome_iff_exists.mp hopens
    exact hforget (TypedMap.sameOutcome_decode constraint depth hsource)
  | record r =>
    obtain ⟨source, hsource⟩ := Option.isSome_iff_exists.mp hopens
    exact hforget (r.sameOutcome_decode depth hsource)
  | _ => cases hopens

end TypedJson
