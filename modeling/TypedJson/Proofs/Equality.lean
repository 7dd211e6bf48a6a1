import Mathlib.Data.List.Forall2
import TypedJson.Equality
import TypedJson.Proofs.Parts

/-!
# TypedJson — when equality is reflexive

Equality of types and of values is numeric at the leaves, so it is not reflexive as it stands: a NaN
is unequal to itself, and so is everything that it is a part of, be it as a default of a field of
the declared type of an empty array. **`Ty.numEq_self_iff`** and **`Value.numEq_self_iff`** say that
nothing else is in the way.

The first part of the module opens the helper functions of equality, each by one equivalence.
-/

namespace TypedJson

/-! ## Opening equality -/

/-- The alternatives of two unions are compared in their order, pair by pair. -/
theorem Ty.numEqAll_iff {ts us : List Ty} :
    Ty.numEqAll ts us = true ↔ List.Forall₂ (fun t u => t.numEq u = true) ts us := by
  induction ts generalizing us with
  | nil => cases us <;> simp [Ty.numEqAll]
  | cons t ts ih => cases us <;> simp [Ty.numEqAll, ih]

/-- Each type of a list has its equal in an equal list. -/
theorem Ty.exists_numEq_of_mem {ts us : List Ty} (h : Ty.numEqAll ts us = true) {t : Ty}
    (ht : t ∈ ts) : ∃ u ∈ us, t.numEq u = true := by
  rw [Ty.numEqAll_iff] at h
  induction h with
  | nil => cases ht
  | cons hhead _ ih =>
    rcases List.mem_cons.mp ht with rfl | htail
    · exact ⟨_, List.mem_cons_self, hhead⟩
    · obtain ⟨u, hu, heq⟩ := ih htail
      exact ⟨u, List.mem_cons_of_mem _ hu, heq⟩

theorem Value.numEqAll_iff {vs ws : List Value} :
    Value.numEqAll vs ws = true ↔ List.Forall₂ (fun v w => v.numEq w = true) vs ws := by
  induction vs generalizing ws with
  | nil => cases ws <;> simp [Value.numEqAll]
  | cons v vs ih => cases ws <;> simp [Value.numEqAll, ih]

theorem Field.numEqIn_iff {fields others : List (String × Field)} :
    Field.numEqIn fields others = true ↔
      ∀ f ∈ fields, ∃ other, others.lookup f.1 = some other ∧ f.2.numEq other = true := by
  induction fields with
  | nil => simp [Field.numEqIn]
  | cons f rest ih =>
    obtain ⟨key, field⟩ := f
    cases h : others.lookup key <;> simp [Field.numEqIn, h, ih]

theorem Value.numEqIn_iff {entries others : List (String × Value)} :
    Value.numEqIn entries others = true ↔
      ∀ e ∈ entries, ∃ other, others.lookup e.1 = some other ∧ e.2.numEq other = true := by
  induction entries with
  | nil => simp [Value.numEqIn]
  | cons e rest ih =>
    obtain ⟨key, v⟩ := e
    cases h : others.lookup key <;> simp [Value.numEqIn, h, ih]

/-- Two fields are equal if their types and their defaults are. -/
theorem Field.numEq_iff {f g : Field} :
    f.numEq g = true ↔ f.ty.numEq g.ty = true ∧ f.default.numEq g.default = true := by
  cases f
  simp [Field.numEq]

/-- Records are equal on the same name, the same number of fields, fields found equal by their
name in whatever order, and equal rest types. -/
theorem RecordTy.numEq_iff {r r' : RecordTy} :
    r.numEq r' = true ↔ r.name = r'.name ∧ r.fields.length = r'.fields.length ∧
      (∀ f ∈ r.fields, ∃ other, r'.fields.lookup f.1 = some other ∧ f.2.numEq other = true) ∧
      Ty.numEqOption r.rest r'.rest = true := by
  cases r
  simp [RecordTy.numEq, Field.numEqIn_iff, and_assoc]

/-- Arrays are equal on equal element types and elements; neither the storage nor the frozen flag is
compared. -/
theorem TypedArray.numEq_iff {a b : TypedArray} :
    a.numEq b = true ↔ a.elementType.numEq b.elementType = true ∧
      List.Forall₂ (fun v w => v.numEq w = true) a.toList b.toList := by
  cases a
  simp [TypedArray.numEq, Storage.numEq_eq, Value.numEqAll_iff, TypedArray.toList]

/-- Maps are equal on equal types, the same number of entries, and entries found equal by their key:
the order is not compared. -/
theorem TypedMap.numEq_iff {m n : TypedMap} :
    m.numEq n = true ↔ m.ty.numEq n.ty = true ∧ m.entries.length = n.entries.length ∧
      ∀ e ∈ m.entries, ∃ other, n.entries.lookup e.1 = some other ∧ e.2.numEq other = true := by
  cases m
  simp [TypedMap.numEq, Value.numEqIn_iff, and_assoc]

/-! ## Equality of a datum with itself -/

/-- The keys of a record type and of a map are distinct. -/
def Part.HasDistinctKeys : Part → Prop
  | .ty (.record r) => Entries.Distinct r.fields
  | .value (.map m) => Entries.Distinct m.entries
  | _ => True

/-- Keyed data is a list of pairs here, which says nothing about its keys. `Keyed` is what an
ordered map has by itself: the keys are distinct, wherever in the type there are keys. -/
def Ty.Keyed (t : Ty) : Prop := (Part.ty t).Everywhere Part.HasDistinctKeys

/-- The keys are distinct, wherever in the value or in its declared types there are keys. -/
def Value.Keyed (v : Value) : Prop := (Part.value v).Everywhere Part.HasDistinctKeys

/-- The value is not a NaN. -/
def Part.IsNumber : Part → Prop
  | .value (.float x) => x.isNaN = false
  | _ => True

/-- No NaN occurs in a default anywhere in the type. -/
def Ty.NaNFree (t : Ty) : Prop := (Part.ty t).Everywhere Part.IsNumber

/-- No NaN occurs anywhere in the value or in a default of its declared types. -/
def Value.NaNFree (v : Value) : Prop := (Part.value v).Everywhere Part.IsNumber

theorem Scalar.numEq_self {s : Scalar} (h : Part.IsNumber (.value (.scalar s))) :
    s.numEq s = true := by
  cases s with
  | float x =>
    have hx : x.isNaN = false := h
    show (!x.isNaN && (x.bits == x.bits || x.isZero && x.isZero)) = true
    simp [hx]
  | decimal d =>
    show (d.units == d.units) = true
    simp
  | _ => simp [Scalar.numEq]

/-- NaN is the only scalar that does not equal itself. -/
theorem Scalar.isNumber_of_numEq_self {s : Scalar} (h : s.numEq s = true) :
    Part.IsNumber (.value (.scalar s)) := by
  cases s with
  | float x =>
    have hx : (!x.isNaN && (x.bits == x.bits || x.isZero && x.isZero)) = true := h
    show x.isNaN = false
    simpa using hx
  | _ => trivial

/-- The two statements of reflexivity, for types and for values, need each other: a record type is
compared with its defaults, and a container with its declared type. -/
theorem numEq_self_steps : InductionSteps
    (fun t => t.Keyed → t.NaNFree → t.numEq t = true)
    (fun v => v.Keyed → v.NaNFree → v.numEq v = true) where
  scalarTy k _ _ := by simp [Ty.numEq]
  json _ _ := rfl
  any _ _ := rfl
  nullTy _ _ := rfl
  union members nullable ih hkeyed hnan := by
    have hmembers : Ty.numEqAll members members = true := Ty.numEqAll_iff.mpr <|
      List.forall₂_same.mpr fun t ht => ih t ht (hkeyed.member ht) (hnan.member ht)
    exact Bool.and_eq_true_iff.mpr ⟨hmembers, beq_self_eq_true nullable⟩
  arrayTy element ih hkeyed hnan := ih hkeyed.element hnan.element
  openMap _ _ := rfl
  mapOf t ih hkeyed hnan := ih hkeyed.constraint hnan.constraint
  record r ihFields ihRest hkeyed hnan := by
    have hdistinct : Entries.Distinct r.fields := hkeyed.self
    refine RecordTy.numEq_iff.mpr ⟨rfl, rfl, fun f hf => ?_, ?_⟩
    · obtain ⟨ihTy, ihDefault⟩ := ihFields f hf
      -- the field found under the name is the field itself: this is where distinct names are used
      exact ⟨f.2, hdistinct.lookup_eq_some hf, Field.numEq_iff.mpr
        ⟨ihTy (hkeyed.field hf) (hnan.field hf), ihDefault (hkeyed.default hf) (hnan.default hf)⟩⟩
    · cases hr : r.rest with
      | none => rfl
      | some t => exact ihRest t hr (hkeyed.rest hr) (hnan.rest hr)
  null _ _ := rfl
  scalar s _ hnan := Scalar.numEq_self hnan.self
  array a ihTy ihItems hkeyed hnan := TypedArray.numEq_iff.mpr
    ⟨ihTy hkeyed.elementType hnan.elementType,
      List.forall₂_same.mpr fun v hv => ihItems v hv (hkeyed.item hv) (hnan.item hv)⟩
  map m ihTy ihEntries hkeyed hnan := by
    have hdistinct : Entries.Distinct m.entries := hkeyed.self
    exact TypedMap.numEq_iff.mpr ⟨ihTy hkeyed.mapTy hnan.mapTy, rfl, fun e he =>
      ⟨e.2, hdistinct.lookup_eq_some he, ihEntries e he (hkeyed.entry he) (hnan.entry he)⟩⟩

/-- **A type without a NaN in its defaults equals itself.** -/
theorem Ty.numEq_self {t : Ty} (hkeyed : t.Keyed) (hnan : t.NaNFree) : t.numEq t = true :=
  numEq_self_steps.ofTy t hkeyed hnan

/-- **A value without a NaN equals itself.** -/
theorem Value.numEq_self {v : Value} (hkeyed : v.Keyed) (hnan : v.NaNFree) : v.numEq v = true :=
  numEq_self_steps.ofValue v hkeyed hnan

/-! ### The way back -/

/-- What equals itself holds no NaN. Where keys are distinct, each entry and each field finds itself
on the other side, so that the comparison goes down to every part. -/
theorem nanFree_steps : InductionSteps
    (fun t => t.Keyed → t.numEq t = true → t.NaNFree)
    (fun v => v.Keyed → v.numEq v = true → v.NaNFree) where
  scalarTy k _ _ := Part.everywhere_scalarTy.mpr trivial
  json _ _ := Part.everywhere_json.mpr trivial
  any _ _ := Part.everywhere_any.mpr trivial
  nullTy _ _ := Part.everywhere_nullTy.mpr trivial
  union members nullable ih hkeyed h := by
    obtain ⟨hmembers, -⟩ := Bool.and_eq_true_iff.mp h
    have hself : ∀ t ∈ members, t.numEq t = true :=
      List.forall₂_same.mp (Ty.numEqAll_iff.mp hmembers)
    refine Part.everywhere_union.mpr ⟨trivial, ?_⟩
    intro t ht
    exact ih t ht (hkeyed.member ht) (hself t ht)
  arrayTy element ih hkeyed h := Part.everywhere_arrayTy.mpr ⟨trivial, ih hkeyed.element h⟩
  openMap _ _ := Part.everywhere_openMap.mpr trivial
  mapOf t ih hkeyed h := Part.everywhere_mapOf.mpr ⟨trivial, ih hkeyed.constraint h⟩
  record r ihFields ihRest hkeyed h := by
    have hdistinct : Entries.Distinct r.fields := hkeyed.self
    obtain ⟨-, -, hfields, hrest⟩ := RecordTy.numEq_iff.mp h
    refine Part.everywhere_record.mpr ⟨trivial, ?_, ?_⟩
    · intro f hf
      obtain ⟨other, hother, heq⟩ := hfields f hf
      -- with distinct names the field is compared with itself and with no other
      rw [hdistinct.lookup_eq_some hf] at hother
      cases hother
      obtain ⟨hty, hdefault⟩ := Field.numEq_iff.mp heq
      obtain ⟨ihTy, ihDefault⟩ := ihFields f hf
      exact ⟨ihTy (hkeyed.field hf) hty, ihDefault (hkeyed.default hf) hdefault⟩
    · intro t ht
      rw [ht] at hrest
      exact ihRest t ht (hkeyed.rest ht) hrest
  null _ _ := Part.everywhere_null.mpr trivial
  scalar s _ h := Part.everywhere_scalar.mpr (Scalar.isNumber_of_numEq_self h)
  array a ihTy ihItems hkeyed h := by
    obtain ⟨hty, hitems⟩ := TypedArray.numEq_iff.mp h
    have hself : ∀ v ∈ a.toList, v.numEq v = true := List.forall₂_same.mp hitems
    refine Part.everywhere_array.mpr ⟨trivial, ihTy hkeyed.elementType hty, ?_⟩
    intro v hv
    exact ihItems v hv (hkeyed.item hv) (hself v hv)
  map m ihTy ihEntries hkeyed h := by
    have hdistinct : Entries.Distinct m.entries := hkeyed.self
    obtain ⟨hty, -, hentries⟩ := TypedMap.numEq_iff.mp h
    refine Part.everywhere_map.mpr ⟨trivial, ihTy hkeyed.mapTy hty, ?_⟩
    intro e he
    obtain ⟨other, hother, heq⟩ := hentries e he
    rw [hdistinct.lookup_eq_some he] at hother
    cases hother
    exact ihEntries e he (hkeyed.entry he) heq

/-- **A type equals itself exactly if no default in it holds a NaN.** -/
theorem Ty.numEq_self_iff {t : Ty} (hkeyed : t.Keyed) : t.numEq t = true ↔ t.NaNFree :=
  ⟨nanFree_steps.ofTy t hkeyed, numEq_self hkeyed⟩

/-- **A value equals itself exactly if there is no NaN in it.** -/
theorem Value.numEq_self_iff {v : Value} (hkeyed : v.Keyed) : v.numEq v = true ↔ v.NaNFree :=
  ⟨nanFree_steps.ofValue v hkeyed, numEq_self hkeyed⟩

end TypedJson
