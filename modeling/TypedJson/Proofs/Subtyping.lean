import TypedJson.Subtyping
import TypedJson.Proofs.Equality

/-!
# TypedJson — the rules of subtyping

`Ty.isSubtype` recurses on its left operand and opens the unions of the right one into their
alternatives. What it decides is easier to say, and to reason from, as a relation with one rule for
each way in which a type can lie below another:

* **`Ty.Below`** — the rules;
* **`Ty.isSubtype_iff_below`** — the function decides the relation.

Equal types lie below each other by a rule of its own. It cannot be dropped: record types have no
rule that looks into them, and a default that is not a number makes a record type unequal to itself.
-/

namespace TypedJson

/-- A record type is JSON if the types of its fields and of all other keys are. -/
theorem RecordTy.isJsonCompatible_iff {r : RecordTy} :
    r.isJsonCompatible = true ↔ (∀ f ∈ r.fields, f.2.ty.isJsonCompatible = true) ∧
      ∀ t, r.rest = some t → t.isJsonCompatible = true := by
  obtain ⟨name, fields, rest⟩ := r
  cases rest <;>
    simp [isJsonCompatible, Field.allJsonCompatible_eq_all, Ty.restJsonCompatible]

namespace Ty

/-- `s.Below t`: every value of `s` is a value of `t`, by the rules. -/
inductive Below : Ty → Ty → Prop
  | of_beq {s t : Ty} (h : (s == t) = true) : Below s t
  | any (s : Ty) : Below s .any
  | unionLeft {members : List Ty} {nullable : Bool} {t : Ty} (h : ∀ s ∈ members, Below s t) :
    Below (.union members nullable) t
  | unionRight {s t : Ty} {members : List Ty} {nullable : Bool} (ht : t ∈ members)
    (h : Below s t) : Below s (.union members nullable)
  | byteInt : Below .byte .int
  | json {s : Ty} (h : s.isJsonCompatible = true) : Below s .json
  | array {s t : Ty} (h : Below s t) : Below (.array s) (.array t)
  | mapOpen (constraint : Option Ty) : Below (.map constraint) .openMap
  | mapOf {s t : Ty} (h : Below s t) : Below (.mapOf s) (.mapOf t)
  | openMapOf {t : Ty} (h : Below .any t) : Below .openMap (.mapOf t)
  | recordOpen (r : RecordTy) : Below (.record r) .openMap
  | recordMapOf {r : RecordTy} {t : Ty} (hfields : ∀ f ∈ r.fields, Below f.2.ty t)
    (hrest : ∀ s, r.rest = some s → Below s t) : Below (.record r) (.mapOf t)

/-! ## Alternatives -/

/-- A type that is no union has itself for its only alternative. -/
theorem alternatives_of_not_union {t : Ty} (h : t.isUnion = false) : t.alternatives = [t] := by
  cases t <;> first | rfl | cases h

/-- Nested unions are flattened: the alternatives of a union are those of its members. -/
theorem mem_alternatives_union {members : List Ty} {nullable : Bool} {a : Ty} :
    a ∈ (Ty.union members nullable).alternatives ↔ ∃ t ∈ members, a ∈ t.alternatives := by
  rw [alternatives, allAlternatives_eq_flatMap, List.mem_flatMap]

/-- An alternative of a type is not a union any more. -/
theorem not_union_of_mem_alternatives {t a : Ty} (h : a ∈ t.alternatives) : a.isUnion = false := by
  induction t with
  | union members nullable ih =>
    obtain ⟨t, ht, ha⟩ := mem_alternatives_union.mp h
    exact ih t ht ha
  | _ =>
    rw [alternatives_of_not_union rfl, List.mem_singleton] at h
    rw [h]
    rfl

/-- What lies below an alternative lies below the type. -/
theorem Below.of_alternative {s t a : Ty} (ha : a ∈ t.alternatives) (h : Below s a) :
    Below s t := by
  induction t with
  | union members nullable ih =>
    obtain ⟨t, ht, ha⟩ := mem_alternatives_union.mp ha
    exact .unionRight ht (ih t ht ha)
  | _ =>
    rw [alternatives_of_not_union rfl, List.mem_singleton] at ha
    exact ha ▸ h

/-! ## The function follows the rules -/

theorem eq_any_of_isAny {t : Ty} (h : t.isAny = true) : t = .any := by
  cases t <;> first | rfl | cases h

theorem eq_json_of_isJson {t : Ty} (h : t.isJson = true) : t = .json := by
  cases t <;> first | rfl | cases h

/-- The part of the check that is the same for all types: equality, `any` and `json`. -/
theorem Below.of_directlyBelow {s t : Ty} (h : s.directlyBelow t = true) : Below s t := by
  simp only [directlyBelow, Bool.or_eq_true, Bool.and_eq_true] at h
  rcases h with (heq | hany) | ⟨hjson, hcompatible⟩
  · exact .of_beq heq
  · rw [eq_any_of_isAny hany]
    exact .any s
  · rw [eq_json_of_isJson hjson]
    exact .json hcompatible

theorem below_of_isSubtype {s t : Ty} (h : s.isSubtype t = true) : Below s t := by
  induction s generalizing t with
  | scalar k =>
    -- one alternative of `t` is found above `s`, either for any `s` or by a rule for scalars;
    -- so it is for all types but unions
    obtain ⟨a, ha, h⟩ := List.any_eq_true.mp h
    refine .of_alternative ha ?_
    rcases Bool.or_eq_true_iff.mp h with hdirect | hscalar
    · exact .of_directlyBelow hdirect
    · split at hscalar
      · obtain ⟨hk, hl⟩ := Bool.and_eq_true_iff.mp hscalar
        rw [eq_of_beq hk, eq_of_beq hl]
        exact .byteInt
      · cases hscalar
  | json =>
    obtain ⟨a, ha, h⟩ := List.any_eq_true.mp h
    exact .of_alternative ha (.of_directlyBelow h)
  | any =>
    obtain ⟨a, ha, h⟩ := List.any_eq_true.mp h
    exact .of_alternative ha (eq_any_of_isAny h ▸ .any .any)
  | null =>
    obtain ⟨a, ha, h⟩ := List.any_eq_true.mp h
    exact .of_alternative ha (.of_directlyBelow h)
  | union members nullable ih =>
    rcases isSubtype_union_iff.mp h with (heq | hany) | hmembers
    · exact .of_beq heq
    · rw [eq_any_of_isAny hany]
      exact .any _
    · exact .unionLeft fun s hs => ih s hs (hmembers s hs)
  | array element ih =>
    obtain ⟨a, ha, h⟩ := List.any_eq_true.mp h
    refine .of_alternative ha ?_
    rcases Bool.or_eq_true_iff.mp h with hdirect | harray
    · exact .of_directlyBelow hdirect
    · split at harray
      · exact .array (ih harray)
      · cases harray
  | openMap =>
    obtain ⟨a, ha, h⟩ := List.any_eq_true.mp h
    refine .of_alternative ha ?_
    rcases Bool.or_eq_true_iff.mp h with hdirect | hmap
    · exact .of_directlyBelow hdirect
    · split at hmap
      · exact .mapOpen none
      · obtain ⟨b, hb, hany⟩ := List.any_eq_true.mp hmap
        exact .openMapOf (.of_alternative hb (eq_any_of_isAny hany ▸ .any .any))
      · cases hmap
  | mapOf s ih =>
    obtain ⟨a, ha, h⟩ := List.any_eq_true.mp h
    refine .of_alternative ha ?_
    rcases Bool.or_eq_true_iff.mp h with hdirect | hmap
    · exact .of_directlyBelow hdirect
    · split at hmap
      · exact .mapOpen (some s)
      · exact .mapOf (ih hmap)
      · cases hmap
  | record r ihFields ihRest =>
    obtain ⟨a, ha, h⟩ := List.any_eq_true.mp h
    refine .of_alternative ha ?_
    rcases Bool.or_eq_true_iff.mp h with hdirect | hmap
    · exact .of_directlyBelow hdirect
    · split at hmap
      · exact .recordOpen r
      · rename_i u
        obtain ⟨name, fields, rest⟩ := r
        simp only [RecordTy.valuesSubtype, Bool.and_eq_true, Field.allSubtype_eq_all,
          List.all_eq_true] at hmap
        refine .recordMapOf (fun f hf => ihFields f hf (hmap.1 f hf)) fun s hs => ?_
        cases hs
        exact ihRest s rfl hmap.2
      · cases hmap

/-! ## The rules hold of the function -/

/-- What is not a union lies below a type exactly if it lies below one of its alternatives. -/
theorem isSubtype_iff_alternative {s t : Ty} (hs : s.isUnion = false) :
    s.isSubtype t = true ↔ ∃ a ∈ t.alternatives, s.isSubtype a = true := by
  -- alternatives are no unions, so opening one of them gives nothing new
  have hopen (g : Ty → Bool) :
      t.alternatives.any g = true ↔ ∃ a ∈ t.alternatives, a.alternatives.any g = true := by
    rw [List.any_eq_true]
    refine exists_congr fun a => and_congr_right fun ha => ?_
    rw [alternatives_of_not_union (not_union_of_mem_alternatives ha), List.any_cons, List.any_nil,
      Bool.or_false]
  cases s with
  | union members nullable => cases hs
  | _ => exact hopen _

theorem not_union_of_numEq {s t : Ty} (hs : s.isUnion = false) (h : s.numEq t = true) :
    t.isUnion = false := by
  cases s <;> cases t <;> first | rfl | cases h | cases hs

/-- A type is a subtype of an equal one. A union is compared as a whole, any other type with the
alternatives of the target. -/
theorem isSubtype_of_beq {s t : Ty} (h : (s == t) = true) : s.isSubtype t = true := by
  cases hs : s.isUnion with
  | true =>
    cases s with
    | union members nullable =>
      rw [isSubtype, h]
      rfl
    | _ => cases hs
  | false =>
    have ht : t.alternatives = [t] := alternatives_of_not_union (not_union_of_numEq hs h)
    cases s with
    | union members nullable => cases hs
    | any => cases t <;> first | rfl | cases h
    | _ => simp [isSubtype, ht, directlyBelow, h]

theorem isSubtype_any (s : Ty) : s.isSubtype .any = true := by
  cases s <;> simp [isSubtype, alternatives, directlyBelow, isAny]

theorem isSubtype_union_left {members : List Ty} {nullable : Bool} {t : Ty}
    (h : ∀ s ∈ members, s.isSubtype t = true) : (Ty.union members nullable).isSubtype t = true :=
  isSubtype_union_iff.mpr (.inr h)

theorem isSubtype_union_right {s t : Ty} {members : List Ty} {nullable : Bool} (ht : t ∈ members)
    (h : s.isSubtype t = true) : s.isSubtype (.union members nullable) = true := by
  -- the left side is opened first, as the function does, so the induction is on it
  induction s generalizing t members nullable with
  | union ss k ih =>
    refine isSubtype_union_left fun s hs => ?_
    rcases isSubtype_union_iff.mp h with (heq | hany) | hmembers
    · -- `t` is an equal union, so `s` is equal to one of its members
      cases t with
      | union ts l =>
        have hmembers : numEqAll ss ts = true := (Bool.and_eq_true_iff.mp heq).1
        obtain ⟨u, hu, hsu⟩ := exists_numEq_of_mem hmembers hs
        exact ih s hs ht (ih s hs hu (isSubtype_of_beq hsu))
      | _ => cases heq
    · rw [eq_any_of_isAny hany] at ht
      exact ih s hs ht (isSubtype_any s)
    · exact ih s hs ht (hmembers s hs)
  | _ =>
    obtain ⟨a, ha, hsa⟩ := (isSubtype_iff_alternative rfl).mp h
    exact (isSubtype_iff_alternative rfl).mpr ⟨a, mem_alternatives_union.mpr ⟨t, ht, ha⟩, hsa⟩

/-- A JSON-compatible type is a subtype of `json`; a union is so member by member. -/
theorem isSubtype_json {s : Ty} (h : s.isJsonCompatible = true) : s.isSubtype .json = true := by
  induction s with
  | union members nullable ih =>
    have hmembers := isJsonCompatible_union_iff.mp h
    exact isSubtype_union_left fun s hs => ih s hs (hmembers s hs)
  | any => cases h
  | _ => simp [isSubtype, alternatives, directlyBelow, isJson, h]

theorem isSubtype_of_below {s t : Ty} (h : Below s t) : s.isSubtype t = true := by
  induction h with
  | of_beq h => exact isSubtype_of_beq h
  | any s => exact isSubtype_any s
  | unionLeft _ ih => exact isSubtype_union_left ih
  | unionRight ht _ ih => exact isSubtype_union_right ht ih
  | byteInt => rfl
  | json h => exact isSubtype_json h
  | array _ ih => simp [isSubtype, alternatives, ih]
  | mapOpen constraint => simp [isSubtype, alternatives]
  | mapOf _ ih => simp [isSubtype, alternatives, constraintSubtype, ih]
  | openMapOf hany ih =>
    rename_i t
    -- the values of an open map are of type `any`
    have hvalues : t.alternatives.any isAny = true := ih
    simp [isSubtype, alternatives, constraintSubtype, hvalues]
  | recordOpen r => simp [isSubtype, alternatives]
  | recordMapOf hfields hrest ihFields ihRest =>
    rename_i r t
    obtain ⟨name, fields, rest⟩ := r
    have hvalues : RecordTy.valuesSubtype ⟨name, fields, rest⟩ t = true := by
      rw [RecordTy.valuesSubtype, Field.allSubtype_eq_all]
      refine Bool.and_eq_true_iff.mpr ⟨List.all_eq_true.mpr ihFields, ?_⟩
      cases rest with
      | none => rfl
      | some s => exact ihRest s rfl
    simp [isSubtype, alternatives, hvalues]

/-- **Subtyping is decided by the rules.** -/
theorem isSubtype_iff_below {s t : Ty} : s.isSubtype t = true ↔ Below s t :=
  ⟨below_of_isSubtype, isSubtype_of_below⟩

end Ty

end TypedJson
