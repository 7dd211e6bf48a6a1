import TypedJson.Proofs.Boxed.Form
import TypedJson.Proofs.Equivalence
import TypedJson.Value.Freeze

/-!
# TypedJson — what equality does not see

Equality is symmetric and transitive, and a NaN is all that keeps it from being reflexive. It also
forgets how data is laid out: the flags, the storage of arrays, the order of entries and of fields.
This goes for containers at any depth, those in the defaults of types included, so it is stated for
a relation between whole types and whole values:

* **`Ty.Rearranged`**, **`Value.Rearranged`** — the same data in another layout;
* **`Value.rearranged_freeze`**, **`Value.rearranged_boxed`**,
  **`TypedArray.rearranged_of_toList_eq`**, **`TypedMap.rearranged_of_perm`**,
  **`RecordTy.rearranged_of_perm`** — the changes of layout;
* **`Ty.Rearranged.numEq_congr`**, **`Value.Rearranged.numEq_congr`** — equality does not depend on
  the layout of either side;
* **`numEq_isPartialEquivalence`** — all of this together.
-/

namespace TypedJson

/-! ## Rearrangements -/

mutual

/-- The types differ in the order of fields and in the layout of defaults. -/
inductive Ty.Rearranged : Ty → Ty → Prop
  | refl (t : Ty) : Ty.Rearranged t t
  | union {members others : List Ty} {nullable : Bool}
    (hmembers : List.Forall₂ Ty.Rearranged members others) :
    Ty.Rearranged (.union members nullable) (.union others nullable)
  | array {element other : Ty} (h : Ty.Rearranged element other) :
    Ty.Rearranged (.array element) (.array other)
  | mapOf {t u : Ty} (h : Ty.Rearranged t u) : Ty.Rearranged (.mapOf t) (.mapOf u)
  | record {r r' : RecordTy} (hname : r.name = r'.name)
    (hkeys : (Entries.keys r.fields).Perm (Entries.keys r'.fields))
    (htypes : ∀ key f f', r.fields.lookup key = some f → r'.fields.lookup key = some f' →
      Ty.Rearranged f.ty f'.ty)
    (hdefaults : ∀ key f f', r.fields.lookup key = some f → r'.fields.lookup key = some f' →
      Value.Rearranged f.default f'.default)
    (hrest : Option.Rel Ty.Rearranged r.rest r'.rest) : Ty.Rearranged (.record r) (.record r')

/-- The values differ in flags, storage and the order of entries, here or further inside, and as
their types may. -/
inductive Value.Rearranged : Value → Value → Prop
  | refl (v : Value) : Value.Rearranged v v
  | array {a b : TypedArray} (hty : Ty.Rearranged a.elementType b.elementType)
    (hitems : List.Forall₂ Value.Rearranged a.toList b.toList) :
    Value.Rearranged (.array a) (.array b)
  | map {m n : TypedMap} (hty : Ty.Rearranged m.ty n.ty) (hkeys : m.keys.Perm n.keys)
    (hentries : ∀ key v w, m.get? key = some v → n.get? key = some w → Value.Rearranged v w) :
    Value.Rearranged (.map m) (.map n)

end

namespace Entries

variable {α β : Type} {es : Entries α} {es' : Entries β}

theorem length_eq_of_keys_perm (hkeys : (keys es).Perm (keys es')) : es.length = es'.length := by
  simpa [keys] using hkeys.length_eq

/-- A permutation of entries does not change what stands under a key. -/
theorem Distinct.eq_of_perm {other : Entries α} (hdistinct : Distinct es) (hperm : es.Perm other)
    {key : String} {a b : α} (ha : es.lookup key = some a) (hb : other.lookup key = some b) :
    a = b := by
  have hmem : (key, b) ∈ es := hperm.mem_iff.mpr (mem_of_lookup hb)
  rw [hdistinct.lookup_eq_some hmem] at ha
  exact (Option.some.inj ha).symm

/-- Under a key of mapped entries stands what was there, mapped. -/
theorem eq_of_lookup_mapped {f : α → β} {key : String} {a : α} {b : β} (ha : es.lookup key = some a)
    (hb : List.lookup key (es.map fun e => (e.1, f e.2)) = some b) : b = f a := by
  rw [lookup_mapped, ha] at hb
  exact (Option.some.inj hb).symm

end Entries

theorem optionRel_iff {α β : Type} {R : α → β → Prop} {c : Option α} {d : Option β} :
    Option.Rel R c d ↔ c = none ∧ d = none ∨ ∃ a b, c = some a ∧ d = some b ∧ R a b := by
  constructor
  · intro h
    cases h with
    | none => exact .inl ⟨rfl, rfl⟩
    | some h => exact .inr ⟨_, _, rfl, rfl, h⟩
  · rintro (⟨rfl, rfl⟩ | ⟨a, b, rfl, rfl, h⟩)
    · exact .none
    · exact .some h

/-! ## The way back -/

/-- A rearrangement is undone by a rearrangement: the permutation of the keys turns around, and what
is found under a key is rearranged back. -/
theorem rearranged_symm_steps : InductionSteps (fun t => ∀ u, t.Rearranged u → u.Rearranged t)
    (fun v => ∀ w, v.Rearranged w → w.Rearranged v) where
  scalarTy k u h := by cases h; exact .refl _
  json u h := by cases h; exact .refl _
  any u h := by cases h; exact .refl _
  nullTy u h := by cases h; exact .refl _
  union members nullable ih u h := by
    cases h with
    | refl => exact .refl _
    | union hmembers =>
      exact .union (forall₂_imp_of_mem hmembers fun t ht u _ h => ih t ht u h).flip
  arrayTy element ih u h := by
    cases h with
    | refl => exact .refl _
    | array h => exact .array (ih _ h)
  openMap u h := by cases h; exact .refl _
  mapOf t ih u h := by
    cases h with
    | refl => exact .refl _
    | mapOf h => exact .mapOf (ih _ h)
  record r ihFields ihRest u h := by
    cases h with
    | refl => exact .refl _
    | record hname hkeys htypes hdefaults hrest =>
      refine .record hname.symm hkeys.symm ?_ ?_ ?_
      · intro key f f' hf hf'
        exact (ihFields _ (Entries.mem_of_lookup hf')).1 _ (htypes key f' f hf' hf)
      · intro key f f' hf hf'
        exact (ihFields _ (Entries.mem_of_lookup hf')).2 _ (hdefaults key f' f hf' hf)
      · refine optionRel_iff.mpr ((optionRel_iff.mp hrest).imp And.symm ?_)
        rintro ⟨t, t', ht, ht', h⟩
        exact ⟨t', t, ht', ht, ihRest t ht t' h⟩
  null w h := by cases h; exact .refl _
  scalar s w h := by cases h; exact .refl _
  array a ihTy ihItems w h := by
    cases h with
    | refl => exact .refl _
    | array hty hitems =>
      exact .array (ihTy _ hty) (forall₂_imp_of_mem hitems fun v hv w _ h => ihItems v hv w h).flip
  map m ihTy ihEntries w h := by
    cases h with
    | refl => exact .refl _
    | map hty hkeys hentries =>
      refine .map (ihTy _ hty) hkeys.symm fun key v w hv hw => ?_
      exact ihEntries _ (Entries.mem_of_lookup hw) _ (hentries key w v hw hv)

theorem Ty.Rearranged.symm {t u : Ty} (h : t.Rearranged u) : u.Rearranged t :=
  rearranged_symm_steps.ofTy t u h

theorem Value.Rearranged.symm {v w : Value} (h : v.Rearranged w) : w.Rearranged v :=
  rearranged_symm_steps.ofValue v w h

/-! ## Keys stay distinct -/

/-- Rearranging keeps keys distinct, at every level: the keys of a level are permuted and each entry
keeps its partner. -/
theorem keyed_of_rearranged_steps : InductionSteps
    (fun t => t.Keyed → ∀ u, t.Rearranged u → u.Keyed)
    (fun v => v.Keyed → ∀ w, v.Rearranged w → w.Keyed) where
  scalarTy k hkeyed u h := by cases h; exact hkeyed
  json hkeyed u h := by cases h; exact hkeyed
  any hkeyed u h := by cases h; exact hkeyed
  nullTy hkeyed u h := by cases h; exact hkeyed
  union members nullable ih hkeyed u h := by
    cases h with
    | refl => exact hkeyed
    | union hmembers =>
      refine Part.everywhere_union.mpr ⟨trivial, fun u hu => ?_⟩
      obtain ⟨t, ht, htu⟩ := exists_left_of_mem hmembers hu
      exact ih t ht (hkeyed.member ht) u htu
  arrayTy element ih hkeyed u h := by
    cases h with
    | refl => exact hkeyed
    | array h => exact Part.everywhere_arrayTy.mpr ⟨trivial, ih hkeyed.element _ h⟩
  openMap hkeyed u h := by cases h; exact hkeyed
  mapOf t ih hkeyed u h := by
    cases h with
    | refl => exact hkeyed
    | mapOf h => exact Part.everywhere_mapOf.mpr ⟨trivial, ih hkeyed.constraint _ h⟩
  record r ihFields ihRest hkeyed u h := by
    cases h with
    | refl => exact hkeyed
    | @record _ r' hname hkeys htypes hdefaults hrest =>
      have hdistinct : Entries.Distinct r.fields := hkeyed.self
      have hdistinct' : Entries.Distinct r'.fields := hdistinct.of_keys_perm hkeys
      refine Part.everywhere_record.mpr ⟨hdistinct', fun f' hf' => ?_, fun u hu => ?_⟩
      · -- Every field of the rearranged record has a partner under its name, since its names are
        -- distinct too
        obtain ⟨f, hf, hlookup, hlookup'⟩ := hdistinct'.exists_partner hkeys hf'
        obtain ⟨ihTy, ihDefault⟩ := ihFields _ hf
        exact ⟨ihTy (hkeyed.field hf) _ (htypes _ _ _ hlookup hlookup'),
          ihDefault (hkeyed.default hf) _ (hdefaults _ _ _ hlookup hlookup')⟩
      · rw [hu] at hrest
        obtain ⟨-, ⟨⟩⟩ | ⟨t, _, ht, ⟨⟩, h⟩ := optionRel_iff.mp hrest
        exact ihRest t ht (hkeyed.rest ht) u h
  null hkeyed w h := by cases h; exact hkeyed
  scalar s hkeyed w h := by cases h; exact hkeyed
  array a ihTy ihItems hkeyed w h := by
    cases h with
    | refl => exact hkeyed
    | array hty hitems =>
      refine Part.everywhere_array.mpr ⟨trivial, ihTy hkeyed.elementType _ hty, fun w hw => ?_⟩
      obtain ⟨v, hv, hvw⟩ := exists_left_of_mem hitems hw
      exact ihItems v hv (hkeyed.item hv) w hvw
  map m ihTy ihEntries hkeyed w h := by
    cases h with
    | refl => exact hkeyed
    | @map _ n hty hkeys hentries =>
      have hdistinct : Entries.Distinct m.entries := hkeyed.self
      have hdistinct' : Entries.Distinct n.entries := hdistinct.of_keys_perm hkeys
      refine Part.everywhere_map.mpr ⟨hdistinct', ihTy hkeyed.mapTy _ hty, fun e' he' => ?_⟩
      obtain ⟨v, hmem, hlookup, hlookup'⟩ := hdistinct'.exists_partner hkeys he'
      exact ihEntries _ hmem (hkeyed.entry hmem) _ (hentries _ _ _ hlookup hlookup')

theorem Ty.Rearranged.keyed {t u : Ty} (h : t.Rearranged u) (hkeyed : t.Keyed) : u.Keyed :=
  keyed_of_rearranged_steps.ofTy t hkeyed u h

theorem Value.Rearranged.keyed {v w : Value} (h : v.Rearranged w) (hkeyed : v.Keyed) : w.Keyed :=
  keyed_of_rearranged_steps.ofValue v hkeyed w h

/-! ## Equality of rearranged data -/

/-- What equals a datum equals its rearrangements. The induction is on the datum, and a partner is
found for each entry of the rearrangement by way of the entry under the same key. -/
theorem numEq_of_rearranged_steps : InductionSteps
    (fun t => t.Keyed → ∀ t' u, t.Rearranged t' → t.numEq u = true → t'.numEq u = true)
    (fun v => v.Keyed → ∀ v' w, v.Rearranged v' → v.numEq w = true → v'.numEq w = true) where
  scalarTy k _ t' u h heq := by cases h; exact heq
  json _ t' u h heq := by cases h; exact heq
  any _ t' u h heq := by cases h; exact heq
  nullTy _ t' u h heq := by cases h; exact heq
  union members nullable ih hkeyed t' u h heq := by
    cases h with
    | refl => exact heq
    | union hmembers =>
      cases u with
      | union thirds flag =>
        obtain ⟨hequal, hflag⟩ := Bool.and_eq_true_iff.mp heq
        refine Bool.and_eq_true_iff.mpr ⟨Ty.numEqAll_iff.mpr ?_, hflag⟩
        -- the membership is carried along the pairs: the induction hypothesis is for alternatives
        -- of the union only
        have hback := forall₂_imp_of_mem hmembers fun t ht u _ h => And.intro ht h
        exact forall₂_trans_of_mem hback.flip (Ty.numEqAll_iff.mp hequal)
          fun t' _ t u ⟨ht, htt'⟩ htu => ih t ht (hkeyed.member ht) t' u htt' htu
      | _ => cases heq
  arrayTy element ih hkeyed t' u h heq := by
    cases h with
    | refl => exact heq
    | array h =>
      cases u with
      | array third => exact ih hkeyed.element _ third h heq
      | _ => cases heq
  openMap _ t' u h heq := by cases h; exact heq
  mapOf t ih hkeyed t' u h heq := by
    cases h with
    | refl => exact heq
    | mapOf h =>
      cases u with
      | map constraint =>
        cases constraint with
        | none => cases heq
        | some third => exact ih hkeyed.constraint _ third h heq
      | _ => cases heq
  record r ihFields ihRest hkeyed t' u h heq := by
    cases h with
    | refl => exact heq
    | @record _ r' hname hkeys htypes hdefaults hrest =>
      cases u with
      | record third =>
        obtain ⟨hname', hlength, hfields, hrest'⟩ := RecordTy.numEq_iff.mp heq
        have hdistinct : Entries.Distinct r.fields := hkeyed.self
        have hdistinct' : Entries.Distinct r'.fields := hdistinct.of_keys_perm hkeys
        -- lookups do not see the order, so the fields are found in the third record as before
        refine RecordTy.numEq_iff.mpr ⟨hname.symm.trans hname',
          (Entries.length_eq_of_keys_perm hkeys).symm.trans hlength, fun f' hf' => ?_, ?_⟩
        · obtain ⟨f, hf, hlookup, hlookup'⟩ := hdistinct'.exists_partner hkeys hf'
          obtain ⟨other, hother, hequal⟩ := hfields _ hf
          obtain ⟨hty, hdefault⟩ := Field.numEq_iff.mp hequal
          obtain ⟨ihTy, ihDefault⟩ := ihFields _ hf
          exact ⟨other, hother, Field.numEq_iff.mpr
            ⟨ihTy (hkeyed.field hf) _ _ (htypes _ _ _ hlookup hlookup') hty,
              ihDefault (hkeyed.default hf) _ _ (hdefaults _ _ _ hlookup hlookup') hdefault⟩⟩
        · obtain ⟨hr, hr'⟩ | ⟨t, t', hr, hr', h⟩ := optionRel_iff.mp hrest
          · rw [hr']
            exact hr ▸ hrest'
          · rw [hr] at hrest'
            obtain ⟨⟨⟩, -⟩ | ⟨_, u, ⟨⟩, hu, hequal⟩ := Ty.numEqOption_iff.mp hrest'
            exact Ty.numEqOption_iff.mpr
              (.inr ⟨t', u, hr', hu, ihRest t hr (hkeyed.rest hr) t' u h hequal⟩)
      | _ => cases heq
  null _ v' w h heq := by cases h; exact heq
  scalar s _ v' w h heq := by cases h; exact heq
  array a ihTy ihItems hkeyed v' w h heq := by
    cases h with
    | refl => exact heq
    | array hty hitems =>
      cases w with
      | array c =>
        obtain ⟨hequalTy, hequal⟩ := TypedArray.numEq_iff.mp heq
        refine TypedArray.numEq_iff.mpr ⟨ihTy hkeyed.elementType _ _ hty hequalTy, ?_⟩
        have hback := forall₂_imp_of_mem hitems fun v hv w _ h => And.intro hv h
        exact forall₂_trans_of_mem hback.flip hequal
          fun v' _ v w ⟨hv, hvv'⟩ hvw => ihItems v hv (hkeyed.item hv) v' w hvv' hvw
      | _ => cases heq
  map m ihTy ihEntries hkeyed v' w h heq := by
    cases h with
    | refl => exact heq
    | @map _ n hty hkeys hentries =>
      cases w with
      | map third =>
        obtain ⟨hequalTy, hlength, hequal⟩ := TypedMap.numEq_iff.mp heq
        have hdistinct : Entries.Distinct m.entries := hkeyed.self
        have hdistinct' : Entries.Distinct n.entries := hdistinct.of_keys_perm hkeys
        refine TypedMap.numEq_iff.mpr ⟨ihTy hkeyed.mapTy _ _ hty hequalTy,
          (Entries.length_eq_of_keys_perm hkeys).symm.trans hlength, fun e' he' => ?_⟩
        obtain ⟨v, hmem, hlookup, hlookup'⟩ := hdistinct'.exists_partner hkeys he'
        obtain ⟨other, hother, hvw⟩ := hequal _ hmem
        exact ⟨other, hother, ihEntries _ hmem (hkeyed.entry hmem) _ _
          (hentries _ _ _ hlookup hlookup') hvw⟩
      | _ => cases heq

/-- A symmetric relation that lets its left side be replaced lets both be replaced. -/
theorem eq_of_replace_left {α : Type} {eq : α → α → Bool} {R : α → α → Prop} {P : α → Prop}
    (hsymm : ∀ x y, P x → eq x y = true → eq y x = true) (hRsymm : ∀ x y, R x y → R y x)
    (hkept : ∀ x y, R x y → P x → P y)
    (hreplace : ∀ x, P x → ∀ x' y, R x x' → eq x y = true → eq x' y = true) {x x' y y' : α}
    (hx : R x x') (hy : R y y') (hPx : P x) (hPy : P y) : eq x y = eq x' y' := by
  have hPx' : P x' := hkept x x' hx hPx
  have hPy' : P y' := hkept y y' hy hPy
  rw [Bool.eq_iff_iff]
  -- the left side is replaced, then the right one after turning the equation around
  constructor
  · intro heq
    have hreplaced : eq x' y = true := hreplace x hPx x' y hx heq
    exact hsymm y' x' hPy' (hreplace y hPy y' x' hy (hsymm x' y hPx' hreplaced))
  · intro heq
    have hreplaced : eq x y' = true := hreplace x' hPx' x y' (hRsymm x x' hx) heq
    exact hsymm y x hPy (hreplace y' hPy' y x (hRsymm y y' hy) (hsymm x y' hPx hreplaced))

/-- **Equality of types does not depend on the layout of either side.** -/
theorem Ty.Rearranged.numEq_congr {t t' u u' : Ty} (ht : t.Rearranged t') (hu : u.Rearranged u')
    (htkeyed : t.Keyed) (hukeyed : u.Keyed) : t.numEq u = t'.numEq u' :=
  eq_of_replace_left (R := Ty.Rearranged) (P := Ty.Keyed) (fun _ _ => numEq_symm) (fun _ _ => symm)
    (fun _ _ => keyed) numEq_of_rearranged_steps.ofTy ht hu htkeyed hukeyed

/-- **Equality of values does not depend on the layout of either side.** -/
theorem Value.Rearranged.numEq_congr {v v' w w' : Value} (hv : v.Rearranged v')
    (hw : w.Rearranged w') (hvkeyed : v.Keyed) (hwkeyed : w.Keyed) : v.numEq w = v'.numEq w' :=
  eq_of_replace_left (R := Value.Rearranged) (P := Value.Keyed) (fun _ _ => numEq_symm)
    (fun _ _ => symm) (fun _ _ => keyed) numEq_of_rearranged_steps.ofValue hv hw hvkeyed hwkeyed

/-! ## Changes of layout -/

/-- An array in another storage, or frozen or not, is the same array. -/
theorem TypedArray.rearranged_of_toList_eq {a b : TypedArray} (hty : b.elementType = a.elementType)
    (hlist : b.toList = a.toList) : (Value.array a).Rearranged (.array b) := by
  refine .array ?_ ?_
  · rw [hty]
    exact .refl _
  · rw [hlist]
    exact List.forall₂_same.mpr fun v _ => .refl v

/-- A map with its entries in another order, or frozen or not, is the same map. -/
theorem TypedMap.rearranged_of_perm {m n : TypedMap} (hdistinct : Entries.Distinct m.entries)
    (hty : n.ty = m.ty) (hperm : m.entries.Perm n.entries) :
    (Value.map m).Rearranged (.map n) := by
  refine .map ?_ (hperm.map Prod.fst) fun key v w hv hw => ?_
  · rw [hty]
    exact .refl _
  · rw [hdistinct.eq_of_perm hperm hv hw]
    exact .refl w

/-- A record type with its fields in another order is the same type. -/
theorem RecordTy.rearranged_of_perm {r r' : RecordTy} (hdistinct : Entries.Distinct r.fields)
    (hname : r.name = r'.name) (hrest : r.rest = r'.rest) (hperm : r.fields.Perm r'.fields) :
    (Ty.record r).Rearranged (.record r') := by
  refine .record hname (hperm.map Prod.fst) ?_ ?_ ?_
  · intro key f f' hf hf'
    rw [hdistinct.eq_of_perm hperm hf hf']
    exact .refl _
  · intro key f f' hf hf'
    rw [hdistinct.eq_of_perm hperm hf hf']
    exact .refl _
  · rw [hrest]
    cases r'.rest with
    | none => exact .none
    | some t => exact .some (.refl t)

/-- A frozen value is the same value. -/
theorem Value.rearranged_freeze (v : Value) : v.Rearranged v.freeze := by
  induction v with
  | null => exact .refl _
  | scalar s => exact .refl _
  | array a ih =>
    show (Value.array a).Rearranged (.array a.freeze)
    refine .array ?_ ?_
    · rw [TypedArray.freeze_eq]
      exact .refl _
    · -- Element by element; the frozen flag of the array is not part of a rearrangement.
      rw [TypedArray.toList_freeze]
      exact List.forall₂_map_right_iff.mpr (List.forall₂_same.mpr ih)
  | map m ih =>
    show (Value.map m).Rearranged (.map m.freeze)
    rw [TypedMap.freeze_eq]
    refine .map (.refl _) ?_ fun key v w hv hw => ?_
    · exact .of_eq (Entries.keys_mapped Value.freeze m.entries).symm
    · obtain rfl := Entries.eq_of_lookup_mapped hv hw
      exact ih _ (Entries.mem_of_lookup hv)

/-- Boxing every packed array is a rearrangement: elements, keys and types stay as they are. -/
theorem rearranged_boxed_steps :
    InductionSteps (fun t => t.Rearranged t.boxed) (fun v => v.Rearranged v.boxed) where
  scalarTy _ := .refl _
  json := .refl _
  any := .refl _
  nullTy := .refl _
  union members nullable ih := by
    rw [Ty.boxed_union]
    exact .union (List.forall₂_map_right_iff.mpr (List.forall₂_same.mpr ih))
  arrayTy element ih := .array ih
  openMap := .refl _
  mapOf t ih := .mapOf ih
  record r ihFields ihRest := by
    show (Ty.record r).Rearranged (.record r.boxed)
    rw [RecordTy.boxed_eq]
    refine .record rfl (.of_eq (Entries.keys_mapped Field.boxed r.fields).symm) ?_ ?_ ?_
    · intro key f f' hf hf'
      obtain rfl := Entries.eq_of_lookup_mapped hf hf'
      rw [Field.boxed_eq]
      exact (ihFields _ (Entries.mem_of_lookup hf)).1
    · intro key f f' hf hf'
      obtain rfl := Entries.eq_of_lookup_mapped hf hf'
      rw [Field.boxed_eq]
      exact (ihFields _ (Entries.mem_of_lookup hf)).2
    · cases hr : r.rest with
      | none => exact .none
      | some t => exact .some (ihRest t hr)
  null := .refl _
  scalar _ := .refl _
  array a ihTy ihItems := by
    show (Value.array a).Rearranged (.array a.boxed)
    refine .array ?_ ?_
    · rw [TypedArray.elementType_boxed]
      exact ihTy
    · rw [TypedArray.toList_boxed]
      exact List.forall₂_map_right_iff.mpr (List.forall₂_same.mpr ihItems)
  map m ihTy ihEntries := by
    show (Value.map m).Rearranged (.map m.boxed)
    rw [TypedMap.boxed_eq]
    refine .map ihTy (.of_eq (Entries.keys_mapped Value.boxed m.entries).symm) ?_
    intro key v w hv hw
    obtain rfl := Entries.eq_of_lookup_mapped hv hw
    exact ihEntries _ (Entries.mem_of_lookup hv)

/-- A value without columns is the same value. -/
theorem Value.rearranged_boxed (v : Value) : v.Rearranged v.boxed :=
  rearranged_boxed_steps.ofValue v

/-! ## Equality -/

/-- **Equality is a partial equivalence that does not see the layout, and only a NaN is unequal to
itself.** On values and on types, keys being distinct, it is symmetric and transitive; it is
reflexive exactly where no NaN occurs, be it in an element, in an entry or in a default; and it
stays what it is when both sides are rearranged. What is frozen is rearranged, and so is an array in
another storage, a map with its entries in another order and a record type with its fields in
another order, each wherever it stands. -/
theorem equality_isPartialEquivalence :
    (∀ v w : Value, v.Keyed → v.numEq w = true → w.numEq v = true) ∧
    (∀ v w x : Value, v.numEq w = true → w.numEq x = true → v.numEq x = true) ∧
    (∀ v : Value, v.Keyed → (v.numEq v = true ↔ v.NaNFree)) ∧
    (∀ v v' w w' : Value, v.Keyed → w.Keyed → v.Rearranged v' → w.Rearranged w' →
      v.numEq w = v'.numEq w') ∧
    (∀ t u : Ty, t.Keyed → t.numEq u = true → u.numEq t = true) ∧
    (∀ t u w : Ty, t.numEq u = true → u.numEq w = true → t.numEq w = true) ∧
    (∀ t : Ty, t.Keyed → (t.numEq t = true ↔ t.NaNFree)) ∧
    (∀ t t' u u' : Ty, t.Keyed → u.Keyed → t.Rearranged t' → u.Rearranged u' →
      t.numEq u = t'.numEq u') ∧
    (∀ v : Value, v.Rearranged v.freeze ∧ v.Rearranged v.boxed) ∧
    (∀ a b : TypedArray, b.elementType = a.elementType → b.toList = a.toList →
      (Value.array a).Rearranged (.array b)) ∧
    (∀ m n : TypedMap, Entries.Distinct m.entries → n.ty = m.ty → m.entries.Perm n.entries →
      (Value.map m).Rearranged (.map n)) ∧
    ∀ r r' : RecordTy, Entries.Distinct r.fields → r.name = r'.name → r.rest = r'.rest →
      r.fields.Perm r'.fields → (Ty.record r).Rearranged (.record r') := by
  refine ⟨fun _ _ => Value.numEq_symm, fun _ _ _ => Value.numEq_trans,
    fun _ => Value.numEq_self_iff, ?_, fun _ _ => Ty.numEq_symm, fun _ _ _ => Ty.numEq_trans,
    fun _ => Ty.numEq_self_iff, ?_, fun v => ⟨v.rearranged_freeze, v.rearranged_boxed⟩,
    fun _ _ => TypedArray.rearranged_of_toList_eq, fun _ _ => TypedMap.rearranged_of_perm,
    fun _ _ => RecordTy.rearranged_of_perm⟩
  · intro v v' w w' hvkeyed hwkeyed hv hw
    exact hv.numEq_congr hw hvkeyed hwkeyed
  · intro t t' u u' htkeyed hukeyed ht hu
    exact ht.numEq_congr hu htkeyed hukeyed

/-- A JSON object with a number and an array. -/
def TypedMap.plot : TypedMap :=
  ⟨.json, [("area", .float ⟨0⟩), ("sizes", .array ⟨.int, .packed (.ints [1, 2]), false⟩)], false⟩

/-- The same object frozen, with its entries in the other order and the array without a column. -/
def TypedMap.plotMoved : TypedMap :=
  ⟨.json, [("sizes", .array ⟨.int, .boxed [.int 1, .int 2], true⟩), ("area", .float ⟨0⟩)], true⟩

/-- A type of such objects. -/
def RecordTy.plot : RecordTy :=
  ⟨"Plot", [("area", .ofTy .float), ("sizes", .ofTy (.array .int))], none⟩

/-- The moved plot equals the plot, both ways, and itself; so does a record type with its fields
in reverse. -/
theorem equality_isPartialEquivalence_plot :
    (Value.map .plot).numEq (.map .plotMoved) = true ∧
      (Value.map .plotMoved).numEq (.map .plot) = true ∧
      (Value.map .plotMoved).numEq (.map .plotMoved) = true ∧
      (Value.map .plot).Rearranged
        (.map { TypedMap.plot with entries := TypedMap.plot.entries.reverse }) ∧
      (Ty.record .plot).numEq
        (.record { RecordTy.plot with fields := RecordTy.plot.fields.reverse }) =
        true := by
  have hkeyed : (Value.map .plot).Keyed := by
    simp [Value.Keyed, TypedMap.plot, Part.HasDistinctKeys, Entries.Distinct, Entries.keys,
      TypedArray.toList, Storage.toList, Column.toScalars]
  have hnan : (Value.map .plot).NaNFree := by
    simp [Value.NaNFree, TypedMap.plot, Part.IsNumber, TypedArray.toList, Storage.toList,
      Column.toScalars]
    decide
  have hkeyedTy : (Ty.record .plot).Keyed := by
    simp [Ty.Keyed, RecordTy.plot, Field.ofTy, Ty.zero, Scalar.zero, Part.HasDistinctKeys,
      Entries.Distinct, Entries.keys]
  have hnanTy : (Ty.record .plot).NaNFree := by
    simp [Ty.NaNFree, RecordTy.plot, Field.ofTy, Ty.zero, Scalar.zero, Part.IsNumber]
    decide
  obtain ⟨hsymm, htrans, hself, hcongr, -, -, hselfTy, hcongrTy, -, harrays, hmaps, hrecords⟩ :=
    equality_isPartialEquivalence
  have hmoved : (Value.map .plot).Rearranged (.map .plotMoved) := by
    refine .map (.refl _) (.swap _ _ _) fun key v w hv hw => ?_
    rcases List.mem_pair.mp (Entries.mem_of_lookup hv) with hentry | hentry <;>
      cases hentry <;> cases hw
    · exact .refl _
    · exact harrays _ _ rfl rfl
  have heq : (Value.map .plot).numEq (.map .plotMoved) = true :=
    (hcongr _ _ _ _ hkeyed hkeyed (.refl _) hmoved).symm.trans ((hself _ hkeyed).mpr hnan)
  have hback := hsymm _ _ hkeyed heq
  have hreversed := hmaps .plot { TypedMap.plot with entries := TypedMap.plot.entries.reverse }
    hkeyed.self rfl (List.reverse_perm _).symm
  have hreversedTy := hrecords .plot { RecordTy.plot with fields := RecordTy.plot.fields.reverse }
    hkeyedTy.self rfl rfl (List.reverse_perm _).symm
  refine ⟨heq, hback, htrans _ _ _ hback heq, hreversed, ?_⟩
  rw [← hcongrTy _ _ _ _ hkeyedTy hkeyedTy (.refl _) hreversedTy]
  exact (hselfTy _ hkeyedTy).mpr hnanTy

end TypedJson
