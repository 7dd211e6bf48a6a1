import TypedJson.Proofs.Admission
import TypedJson.Proofs.Contents

/-!
# TypedJson — values and the types that they carry

A value carries a type, and one would store it wherever that type is declared. Whether this succeeds
is a question about types alone: a type has to be a subtype of itself. Every rule of subtyping is
reflexive but for one. There is no rule that looks into record types, so these are compared as a
whole, together with their defaults, and a default that is a NaN makes a record type unequal to
itself.

* **`Ty.isSubtype_self`**, **`Ty.EndsIn.isSubtype_self_iff`** — which types are subtypes of
  themselves;
* **`Value.admits_typeOf_iff`** — a value is admitted by its own type exactly then;
* **`own_type_admits`** — so it can be stored under its own type unless there is a NaN in that type;
* **`own_type_may_refuse`** — a record type with such a default admits none of its records.
-/

namespace TypedJson

namespace Ty

/-! ## Types below themselves -/

/-- A type without a NaN in its defaults is a subtype of itself. -/
theorem isSubtype_self {t : Ty} (hkeyed : t.Keyed) (hnan : t.NaNFree) : t.isSubtype t = true :=
  isSubtype_of_beq (numEq_self hkeyed hnan)

/-- A record type is a subtype of no other record type than those that equal it. -/
theorem isSubtype_record_iff {r r' : RecordTy} :
    (Ty.record r).isSubtype (.record r') = true ↔ (Ty.record r).numEq (.record r') = true := by
  constructor
  · intro h
    cases below_of_isSubtype h with
    | of_beq heq => exact heq
  · intro h
    exact isSubtype_of_beq h

theorem isSubtype_mapOf_iff {s t : Ty} :
    (Ty.mapOf s).isSubtype (.mapOf t) = true ↔ s.isSubtype t = true := by
  simp only [isSubtype_iff_below]
  constructor
  · intro h
    cases h with
    | of_beq heq => exact .of_beq heq
    | mapOf h => exact h
  · intro h
    exact .mapOf h

/-- The type is this record type, or one of arrays or maps, at any depth, that ends in it. -/
inductive EndsIn (r : RecordTy) : Ty → Prop
  | record : EndsIn r (.record r)
  | array {t : Ty} (h : EndsIn r t) : EndsIn r (.array t)
  | mapOf {t : Ty} (h : EndsIn r t) : EndsIn r (.mapOf t)

/-- **Arrays and maps of a record type are below themselves exactly if the record type has no NaN in
its defaults.** Only a union could help, with another member above the record type. -/
theorem EndsIn.isSubtype_self_iff {r : RecordTy} {t : Ty} (h : t.EndsIn r) (hkeyed : t.Keyed) :
    t.isSubtype t = true ↔ (Ty.record r).NaNFree := by
  -- arrays and constrained maps pass the question on, and records answer it by equality
  induction h with
  | record =>
    rw [isSubtype_record_iff]
    exact numEq_self_iff hkeyed
  | array _ ih =>
    rw [isSubtype_array_iff]
    exact ih hkeyed.element
  | mapOf _ ih =>
    rw [isSubtype_mapOf_iff]
    exact ih hkeyed.constraint

end Ty

namespace Value

variable {v : Value}

/-- **A value is admitted by the type that it carries exactly if that type is a subtype of itself.**
The values that are judged by another type than their own make no difference here. -/
theorem admits_typeOf_iff (hmapping : v.IsMappingIfMap) :
    v.typeOf.admits v = true ↔ v.typeOf.isSubtype v.typeOf = true := by
  by_cases hobject : v.IsJsonObject
  · -- a JSON object is JSON
    obtain ⟨m, rfl, hm⟩ := hobject.exists_map
    rw [typeOf, hm]
    exact iff_of_true (Ty.admits_json_map hm) rfl
  · rw [Ty.admits_eq_isSubtype hmapping hobject, lowestType]
    split
    · -- an integer of at most eight bits is judged as a byte, and bytes pass for integers
      rename_i hsize
      obtain ⟨i, rfl⟩ := hsize.exists_int
      exact iff_of_true rfl rfl
    · exact Iff.rfl

/-- A value has the form in which its own type is stored. -/
theorem normalize_typeOf (v : Value) : v.typeOf.normalize v = v := by
  cases v with
  | scalar s => exact congrArg Value.scalar (Scalar.normalize_of_kind rfl)
  | map m =>
    simp only [typeOf]
    cases m.ty <;> rfl
  | _ => rfl

/-- An array of the value's own type takes it if the type admits it, and holds it as it is. -/
theorem push_typeOf_iff :
    v.typeOf.admits v = true ↔
      ∃ a, (TypedArray.empty v.typeOf).push v = .ok a ∧ a.toList = [v] := by
  constructor
  · intro h
    have hfits := TypedArray.fits_empty v.typeOf
    obtain ⟨a, ha⟩ := TypedArray.push_of_admits hfits rfl h
    obtain ⟨-, hlist⟩ := TypedArray.push_eq_ok ha
    refine ⟨a, ha, ?_⟩
    rw [hlist, TypedArray.elementType_empty, normalize_typeOf, TypedArray.toList_empty]
    rfl
  · rintro ⟨a, ha, -⟩
    exact (TypedArray.push_eq_ok ha).1

/-- So does a map of values of that type. -/
theorem put_typeOf_iff {key : String} :
    v.typeOf.admits v = true ↔
      ∃ m, (TypedMap.empty (.mapOf v.typeOf)).put key v = .ok m ∧ m.entries = [(key, v)] := by
  constructor
  · intro h
    have haccepted : (TypedMap.empty (.mapOf v.typeOf)).rejection? key v = none :=
      (TypedMap.rejection?_mapOf rfl).mpr h
    exact ⟨_, TypedMap.put_eq_ok_iff.mpr ⟨rfl, haccepted, rfl⟩, rfl⟩
  · rintro ⟨m, hm, -⟩
    obtain ⟨-, haccepted, -⟩ := TypedMap.put_eq_ok_iff.mp hm
    exact (TypedMap.rejection?_mapOf rfl).mp haccepted

end Value

/-! ## Storing a value under its own type -/

/-- **A value can be stored under its own type, unless a default in that type is a NaN.** Its type
admits it then, an array of the type takes it and a map of the type takes it, and both hold it as it
is. For records, and for arrays and maps of records at any depth, the condition is exact. -/
theorem own_type_admits (v : Value) (hmapping : v.IsMappingIfMap) (hkeyed : v.typeOf.Keyed) :
    (v.typeOf.NaNFree → v.typeOf.admits v = true) ∧
    (∀ r, v.typeOf.EndsIn r → (v.typeOf.admits v = true ↔ (Ty.record r).NaNFree)) ∧
    (v.typeOf.admits v = true ↔
      ∃ a, (TypedArray.empty v.typeOf).push v = .ok a ∧ a.toList = [v]) ∧
    ∀ key, v.typeOf.admits v = true ↔
      ∃ m, (TypedMap.empty (.mapOf v.typeOf)).put key v = .ok m ∧ m.entries = [(key, v)] := by
  refine ⟨?_, ?_, Value.push_typeOf_iff, fun key => Value.put_typeOf_iff⟩
  · intro hnan
    exact (Value.admits_typeOf_iff hmapping).mpr (Ty.isSubtype_self hkeyed hnan)
  · intro r hr
    rw [Value.admits_typeOf_iff hmapping]
    exact hr.isSubtype_self_iff hkeyed

/-- A measurement, with a level that is a number by default or is not. -/
def RecordTy.gauge (level : Binary64) : RecordTy :=
  (named "Gauge").fieldWithDefault "level" .float (.float level)

theorem RecordTy.keyed_gauge (level : Binary64) : (Ty.record (.gauge level)).Keyed := by
  simp [Ty.Keyed, gauge, named, fieldWithDefault, declare, Entries.insert, Part.HasDistinctKeys,
    Entries.Distinct, Entries.keys]

/-- A type of arrays of maps of measurements. -/
def Ty.gauges (level : Binary64) : Ty := .array (.mapOf (.record (.gauge level)))

/-- An array of maps of gauges is an instance of its own type when the default is zero, and is not
when it is NaN. -/
theorem own_type_admits_gauges :
    (Ty.gauges ⟨0⟩).NaNFree ∧ (Ty.gauges ⟨0⟩).admits (Ty.gauges ⟨0⟩).zero = true ∧
    (∃ a, (TypedArray.empty (Ty.gauges ⟨0⟩)).push (Ty.gauges ⟨0⟩).zero = .ok a ∧
      a.toList = [(Ty.gauges ⟨0⟩).zero]) ∧
    (Ty.gauges .nan).admits (Ty.gauges .nan).zero = false := by
  have hkeyed (level : Binary64) : (Ty.gauges level).Keyed := by
    simpa [Ty.gauges, Ty.Keyed, Part.HasDistinctKeys] using RecordTy.keyed_gauge level
  have hnan : (Ty.gauges ⟨0⟩).NaNFree := by
    simp [Ty.gauges, Ty.NaNFree, RecordTy.gauge, RecordTy.named, RecordTy.fieldWithDefault,
      RecordTy.declare, Entries.insert, Part.IsNumber]
    decide
  obtain ⟨hadmits, -, hpush, -⟩ := own_type_admits (Ty.gauges ⟨0⟩).zero trivial (hkeyed _)
  obtain ⟨-, hexact, -, -⟩ := own_type_admits (Ty.gauges .nan).zero trivial (hkeyed _)
  refine ⟨hnan, hadmits hnan, hpush.mp (hadmits hnan), ?_⟩
  rw [Bool.eq_false_iff]
  intro h
  have hends : (Ty.gauges .nan).EndsIn (.gauge .nan) := .array (.mapOf .record)
  have hfree : (Ty.record (.gauge .nan)).NaNFree := (hexact _ hends).mp h
  -- the one default inside the type is the NaN
  have hlevel := hfree.default (f := ("level", ⟨.float, .float .nan⟩)) List.mem_cons_self
  have hnumber : Binary64.nan.isNaN = false := hlevel.self
  exact absurd hnumber (by decide)

/-- A record type with a NaN as a default admits none of its records. -/
theorem own_type_may_refuse :
    ¬ ∀ v : Value, v.IsMappingIfMap → v.typeOf.Keyed → v.typeOf.admits v = true := by
  intro h
  have hadmits := h (Ty.record (.gauge .nan)).zero rfl (RecordTy.keyed_gauge .nan)
  have hrefused : (Ty.record (.gauge .nan)).admits (Ty.record (.gauge .nan)).zero = false := by
    decide
  exact absurd (hrefused.symm.trans hadmits) Bool.false_ne_true

end TypedJson
