import TypedJson.Proofs.Conformance
import TypedJson.Proofs.Order

/-!
# TypedJson — the two checks agree

Values are checked by one function, types by another. They agree as far as possible: a value is
admitted where the type that it carries is a subtype. There are two exceptions.

* An integer of at most eight bits passes for a byte, so it is judged as one.
* A JSON object passes for a map, although `json` is a subtype of no map type. Which maps it passes
  for is decided by the form of the constraint alone.

The main results:

* **`Ty.admits_eq_isSubtype`**, **`Ty.admits_jsonObject_iff`** — what is admitted, in terms of
  subtyping;
* **`Ty.checks_agree`** — the agreement and its exceptions;
* **`Ty.admits_of_isSubtype`** — whether what a type admits is admitted by all types above it.
-/

namespace TypedJson

namespace Value

/-- An integer that fits into a byte. -/
def IsByteSized : Value → Prop
  | .int i => 0 ≤ i.toInt ∧ i.toInt ≤ 255
  | _ => False

/-- A map that is declared as a JSON object. -/
def IsJsonObject : Value → Prop
  | .map m => m.ty = .json
  | _ => False

instance : DecidablePred IsByteSized
  | .int i => inferInstanceAs (Decidable (0 ≤ i.toInt ∧ i.toInt ≤ 255))
  | .null | .float _ | .decimal _ | .string _ | .boolean _ | .byte _ | .array _ | .map _ =>
    .isFalse id

/-- Only integers are of the size of a byte; a byte is not, although it could be. -/
theorem IsByteSized.exists_int {v : Value} (h : v.IsByteSized) : ∃ i, v = .int i := by
  cases v with
  | scalar s =>
    cases s with
    | int i => exact ⟨i, rfl⟩
    | _ => cases h
  | _ => cases h

theorem IsJsonObject.exists_map {v : Value} (h : v.IsJsonObject) :
    ∃ m : TypedMap, v = .map m ∧ m.ty = .json := by
  cases v with
  | map m => exact ⟨m, rfl, h⟩
  | _ => cases h

/-- The lowest type that a value passes for. -/
def lowestType (v : Value) : Ty := if v.IsByteSized then .byte else v.typeOf

end Value

namespace Ty

/-! ## Alternatives one by one -/

/-- A value is admitted by one of the alternatives. -/
theorem admits_iff_alternative {t : Ty} {v : Value} :
    t.admits v = true ↔ ∃ a ∈ t.alternatives, a.admits v = true := by
  induction t with
  | union members nullable ih =>
    rw [admits_union_iff]
    simp only [mem_alternatives_union]
    constructor
    · rintro ⟨t, ht, h⟩
      obtain ⟨a, ha, h⟩ := (ih t ht).mp h
      exact ⟨a, ⟨t, ht, ha⟩, h⟩
    · rintro ⟨a, ⟨t, ht, ha⟩, h⟩
      exact ⟨t, ht, (ih t ht).mpr ⟨a, ha, h⟩⟩
  | _ =>
    rw [alternatives_of_not_union rfl]
    simp

/-- Where a value and a type agree on all types that are no unions, they agree on all types. -/
theorem admits_eq_isSubtype_of_alternatives {s : Ty} {v : Value} (hs : s.isUnion = false)
    (h : ∀ a : Ty, a.isUnion = false → (a.admits v = true ↔ s.isSubtype a = true)) (t : Ty) :
    t.admits v = s.isSubtype t := by
  rw [Bool.eq_iff_iff, admits_iff_alternative, isSubtype_iff_alternative hs]
  exact exists_congr fun a =>
    and_congr_right fun ha => h a (not_union_of_mem_alternatives ha)

/-! ## Null, scalars and arrays -/

/-- A scalar has its lowest kind and those above. -/
theorem exists_lowestKind (s : Scalar) : ∃ k, (Value.scalar s).lowestType = .scalar k ∧
    ∀ l, s.hasKind l = (Ty.scalar k).isSubtype (.scalar l) := by
  by_cases hbyte : (Value.scalar s).IsByteSized
  · -- it has two kinds, and `byte` is the lower one
    refine ⟨.byte, if_pos hbyte, fun l => ?_⟩
    cases s with
    | int i =>
      have hrange : 0 ≤ i.toInt ∧ i.toInt ≤ 255 := hbyte
      have hkind : (Scalar.int i).hasKind .byte = true := by simpa [Scalar.hasKind] using hrange
      cases l <;> first | rfl | exact hkind
    | _ => cases hbyte
  · refine ⟨s.kind, if_neg hbyte, fun l => ?_⟩
    cases s with
    | int i =>
      have hrange : ¬ (0 ≤ i.toInt ∧ i.toInt ≤ 255) := hbyte
      have hkind : (Scalar.int i).hasKind .byte = false := by simpa [Scalar.hasKind] using hrange
      cases l <;> first | rfl | exact hkind
    | _ => cases l <;> rfl

variable {a : Ty}

/-- Alternatives are no unions. For these, one lemma for each kind of value says that the two checks
agree. -/
theorem admits_null_iff (ha : a.isUnion = false) :
    a.admits .null = true ↔ Ty.null.isSubtype a = true := by
  cases a with
  | union members nullable => cases ha
  | _ => exact Iff.rfl

/-- A scalar is looked at by its own kind or, if it fits, as a byte. -/
theorem admits_scalar_iff (s : Scalar) (ha : a.isUnion = false) :
    a.admits (.scalar s) = true ↔ (Value.scalar s).lowestType.isSubtype a = true := by
  obtain ⟨k, hk, hkinds⟩ := exists_lowestKind s
  rw [hk]
  cases a with
  | union members nullable => cases ha
  | scalar l => rw [admits, hkinds]
  | _ => exact Iff.rfl

/-- Array types are compared by their element types alone: equality of the whole is a case of it. -/
theorem isSubtype_array_iff {s t : Ty} :
    (Ty.array s).isSubtype (.array t) = true ↔ s.isSubtype t = true := by
  simp only [isSubtype_iff_below]
  constructor
  · intro h
    cases h with
    | of_beq heq => exact .of_beq heq
    | array h => exact h
  · exact .array

/-- Below `json` is what is JSON throughout. -/
theorem isSubtype_json_iff {s : Ty} : s.isSubtype .json = true ↔ s.isJsonCompatible = true :=
  ⟨fun h => (below_of_isSubtype h).isJsonCompatible rfl, isSubtype_json⟩

/-- An array goes by its declared element type in both checks. -/
theorem admits_array_iff (array : TypedArray) (ha : a.isUnion = false) :
    a.admits (.array array) = true ↔ (Ty.array array.elementType).isSubtype a = true := by
  cases a with
  | union members nullable => cases ha
  | array element => exact isSubtype_array_iff.symm
  | json =>
    rw [admits, isSubtype_json_iff, isSubtype_json_iff]
    exact Iff.rfl
  | _ => exact Iff.rfl

/-! ## Maps -/

/-- What lies above a type of maps is `any` or a type of maps. -/
theorem isMapping_of_isSubtype {s : Ty} (hs : s.isMapping = true) (ha : a.isUnion = false)
    (h : s.isSubtype a = true) : a = .any ∨ a.isMapping = true := by
  cases below_of_isSubtype h with
  -- equal types have the same constructor, and those of mappings are mappings
  | of_beq heq =>
    cases s with
    | json | map | record => cases a <;> first | exact .inr rfl | cases heq
    | _ => cases hs
  | any => exact .inl rfl
  | unionLeft => cases hs
  | unionRight => cases ha
  | byteInt => cases hs
  | array => cases hs
  | json | mapOpen | mapOf | openMapOf | recordOpen | recordMapOf => exact .inr rfl

/-- Types of maps judge a map by its type, unless it is a JSON object. -/
theorem admits_map_iff {m : TypedMap} (hm : m.ty ≠ .json) (ha : a.isUnion = false) :
    a.admits (.map m) = true ↔ a = .any ∨ a.isMapping = true ∧ m.ty.isSubtype a = true := by
  have hjson : ¬ m.ty.isJson = true := fun h => hm (eq_json_of_isJson h)
  cases a with
  | union members nullable => cases ha
  | map constraint =>
    rw [admits, if_neg hjson]
    simp [isMapping]
  | _ => simp [admits, isMapping, Value.isNull]

/-- The map types that take JSON objects: open maps, maps of `json` and maps of `any`. -/
def TakesObjects (a : Ty) : Prop := a = .openMap ∨ a = .mapOf .json ∨ a = .mapOf .any

/-- The three maps that take any object are those whose constraint is named in the check. -/
theorem takesObjects_map_iff {constraint : Option Ty} :
    (Ty.map constraint).TakesObjects ↔ constraintAdmitsJson constraint = true := by
  cases constraint with
  | none => simp [TakesObjects, constraintAdmitsJson]
  | some t => cases t <;> simp [TakesObjects, constraintAdmitsJson, isJson, isAny]

/-- The types, unions apart, that take JSON objects. -/
theorem admits_jsonObject_cases {m : TypedMap} (hm : m.ty = .json) (ha : a.isUnion = false) :
    a.admits (.map m) = true ↔ (a = .any ∨ a = .json) ∨ a.TakesObjects := by
  cases a with
  | union members nullable => cases ha
  | map constraint =>
    have hjson : m.ty.isJson = true := hm ▸ rfl
    rw [admits, if_pos hjson, takesObjects_map_iff]
    simp
  | json =>
    rw [admits, hm]
    exact iff_of_true rfl (.inl (.inr rfl))
  | record r =>
    rw [admits, hm]
    exact iff_of_false Bool.false_ne_true (by simp [TakesObjects])
  | _ => simp [admits, TakesObjects, Value.isNull]

/-- Short of unions, only `any` and `json` itself are above `json`. -/
theorem json_isSubtype_iff (ha : a.isUnion = false) :
    Ty.json.isSubtype a = true ↔ a = .any ∨ a = .json := by
  constructor
  · intro h
    cases a <;> first | exact .inl rfl | exact .inr rfl | cases h | cases ha
  · rintro (rfl | rfl) <;> rfl

/-! ## Agreement -/

/-- **A value is judged by its lowest type**, JSON objects aside. -/
theorem admits_eq_isSubtype {v : Value} (hmapping : v.IsMappingIfMap)
    (hobject : ¬ v.IsJsonObject) (t : Ty) : t.admits v = v.lowestType.isSubtype t := by
  cases v with
  | null => exact admits_eq_isSubtype_of_alternatives rfl (fun a ha => admits_null_iff ha) t
  | scalar s =>
    have hunion : (Value.scalar s).lowestType.isUnion = false := by
      obtain ⟨k, hk, -⟩ := exists_lowestKind s
      rw [hk]
      rfl
    exact admits_eq_isSubtype_of_alternatives hunion (fun a ha => admits_scalar_iff s ha) t
  | array array =>
    exact admits_eq_isSubtype_of_alternatives rfl (fun a ha => admits_array_iff array ha) t
  | map m =>
    have hm : m.ty.isMapping = true := hmapping
    have hunion : m.ty.isUnion = false := by
      cases hty : m.ty <;> rw [hty] at hm <;> first | rfl | cases hm
    refine admits_eq_isSubtype_of_alternatives hunion (fun a ha => ?_) t
    -- any other map goes by its declared type, and `any` takes it by a rule of its own
    rw [admits_map_iff hobject ha]
    constructor
    · rintro (rfl | ⟨-, h⟩)
      · exact isSubtype_any m.ty
      · exact h
    · intro h
      exact (isMapping_of_isSubtype hm ha h).imp_right fun ha => ⟨ha, h⟩

/-- An integer of at most eight bits is judged by `byte`. -/
theorem admits_eq_isSubtype_byte {v : Value} (h : v.IsByteSized) (t : Ty) :
    t.admits v = Ty.byte.isSubtype t := by
  have hlowest : v.lowestType = .byte := if_pos h
  obtain ⟨i, rfl⟩ := h.exists_int
  have hmapping : (Value.int i).IsMappingIfMap := trivial
  have hobject : ¬ (Value.int i).IsJsonObject := id
  rw [admits_eq_isSubtype hmapping hobject, hlowest]

/-- A JSON object is judged by `json`, and by the map types that take JSON objects. -/
theorem admits_jsonObject_iff {v : Value} (h : v.IsJsonObject) {t : Ty} :
    t.admits v = true ↔
      Ty.json.isSubtype t = true ∨ ∃ a ∈ t.alternatives, a.TakesObjects := by
  obtain ⟨m, rfl, hm⟩ := h.exists_map
  rw [admits_iff_alternative, isSubtype_iff_alternative rfl, ← exists_or]
  refine exists_congr fun a => ?_
  rw [← and_or_left]
  refine and_congr_right fun ha => ?_
  have ha : a.isUnion = false := not_union_of_mem_alternatives ha
  rw [admits_jsonObject_cases hm ha, json_isSubtype_iff ha]

/-- **The two checks agree.** A value is admitted by the types above its own, unless it is an
integer of at most eight bits, which is judged as a byte, or a JSON object, which passes for some
maps. -/
theorem checks_agree (v : Value) (hmapping : v.IsMappingIfMap) :
    ((∀ t : Ty, t.admits v = v.typeOf.isSubtype t) ↔ ¬ v.IsByteSized ∧ ¬ v.IsJsonObject) ∧
    (v.IsByteSized → ∀ t : Ty, t.admits v = Ty.byte.isSubtype t) ∧
    (v.IsJsonObject → ∀ t : Ty, t.admits v = true ↔
      Ty.json.isSubtype t = true ∨ ∃ a ∈ t.alternatives, a.TakesObjects) := by
  refine ⟨⟨fun h => ⟨fun hsize => ?_, fun hobject => ?_⟩, fun ⟨hsize, hobject⟩ t => ?_⟩,
    admits_eq_isSubtype_byte, fun hobject t => admits_jsonObject_iff hobject⟩
  · -- the value passes for a byte, and `int` is not below `byte`
    have hadmits : Ty.byte.admits v = true := admits_eq_isSubtype_byte hsize .byte
    rw [h] at hadmits
    obtain ⟨i, rfl⟩ := hsize.exists_int
    cases hadmits
  · -- the object passes for an open map, and `json` is below no map type
    have hadmits : Ty.openMap.admits v = true :=
      (admits_jsonObject_iff hobject).mpr (.inr ⟨_, List.mem_singleton_self _, .inl rfl⟩)
    rw [h] at hadmits
    obtain ⟨m, rfl, hm⟩ := hobject.exists_map
    rw [Value.typeOf, hm] at hadmits
    cases hadmits
  · rw [admits_eq_isSubtype hmapping hobject, Value.lowestType, if_neg hsize]

/-- A byte, or a map of JSON inside a union inside a union. -/
def remark : Ty := .optional (.union [.byte, .mapOf .json] false)

/-- A union in which both exceptions can be seen: a number that fits in a byte, and a JSON object
under a nested alternative. -/
theorem checks_agree_remark :
    remark.admits (.int 300) = Ty.int.isSubtype remark ∧
    remark.admits (.int 7) = true ∧ Ty.int.isSubtype remark = false ∧
    remark.admits (.map (.empty .json)) = true ∧ Ty.json.isSubtype remark = false := by
  obtain ⟨hagree, -, -⟩ := checks_agree (.int 300) trivial
  obtain ⟨-, hbyte, -⟩ := checks_agree (.int 7) trivial
  obtain ⟨-, -, hjson⟩ := checks_agree (.map (.empty .json)) rfl
  refine ⟨hagree.mpr ⟨by decide, ?_⟩ remark, ?_, by decide, ?_, by decide⟩
  · exact id
  · -- seven is admitted as a byte, and no integer type is below the union
    rw [hbyte (by decide) remark]
    decide
  · exact (hjson rfl remark).mpr (.inr ⟨.mapOf .json, by simp [remark, optional, alternatives,
      allAlternatives], .inr (.inl rfl)⟩)

/-! ## From a type to the types above it -/

/-- What lies above a map type, unions apart. -/
theorem Below.of_map {constraint : Option Ty} (ha : a.isUnion = false)
    (h : Below (.map constraint) a) :
    a = .any ∨ a = .json ∨ a = .openMap ∨ ∃ t, a = .mapOf t ∧ Below (constraint.getD .any) t := by
  cases h with
  | of_beq heq =>
    cases a with
    | map other =>
      -- equality of map types is equality of constraints, absent on both sides or present on both
      rcases numEqOption_iff.mp heq with ⟨-, rfl⟩ | ⟨s, t, rfl, rfl, heq⟩
      · exact .inr (.inr (.inl rfl))
      · exact .inr (.inr (.inr ⟨t, rfl, .of_beq heq⟩))
    | _ => cases heq
  | any => exact .inl rfl
  | unionRight => cases ha
  | json => exact .inr (.inl rfl)
  | mapOpen => exact .inr (.inr (.inl rfl))
  | mapOf h => exact .inr (.inr (.inr ⟨_, rfl, h⟩))
  | openMapOf h => exact .inr (.inr (.inr ⟨_, rfl, h⟩))

/-- A JSON object that passes for a type passes for a type above it, or that is a map of a union. -/
theorem admits_jsonObject_of_below {m : TypedMap} (hm : m.ty = .json) {a b : Ty}
    (ha : a.isUnion = false) (hb : b.isUnion = false) (hbelow : Below a b)
    (h : a.admits (.map m) = true) :
    b.admits (.map m) = true ∨
      ∃ u, b = .mapOf u ∧ u.isUnion = true ∧ Ty.json.isSubtype u = true := by
  have hforms := (admits_jsonObject_cases hm hb).mpr
  have hmap (constraint : Option Ty) (hconstraint : Below .json (constraint.getD .any))
      (hbelow : Below (.map constraint) b) :
      b.admits (.map m) = true ∨
        ∃ u, b = .mapOf u ∧ u.isUnion = true ∧ Ty.json.isSubtype u = true := by
    -- the object is held against the constraint by name, and a union of all JSON is not one of the
    -- names
    rcases hbelow.of_map hb with hany | hjson | hopen | ⟨u, rfl, hu⟩
    · exact .inl (hforms (.inl (.inl hany)))
    · exact .inl (hforms (.inl (.inr hjson)))
    · exact .inl (hforms (.inr (.inl hopen)))
    · have hsub : Ty.json.isSubtype u = true := isSubtype_of_below (hconstraint.trans hu)
      cases hunion : u.isUnion with
      | true => exact .inr ⟨u, rfl, hunion, hsub⟩
      | false =>
        rcases (json_isSubtype_iff hunion).mp hsub with rfl | rfl
        · exact .inl (hforms (.inr (.inr (.inr rfl))))
        · exact .inl (hforms (.inr (.inr (.inl rfl))))
  -- the five forms of an alternative that takes the object
  rcases (admits_jsonObject_cases hm ha).mp h with (rfl | rfl) | rfl | rfl | rfl
  · exact .inl (hforms (.inl (.inl (hbelow.eq_any hb))))
  · exact .inl (hforms (.inl ((json_isSubtype_iff hb).mp (isSubtype_of_below hbelow))))
  · exact hmap none (.any _) hbelow
  · exact hmap (some .json) (.json rfl) hbelow
  · exact hmap (some .any) (.any _) hbelow

/-- **Whatever a type admits is admitted by the types above it**, with one exception: a JSON object
need not pass for a map of a union, even if `json` is below the union. -/
theorem admits_of_isSubtype {s t : Ty} {v : Value} (hsub : s.isSubtype t = true)
    (h : s.admits v = true) :
    t.admits v = true ∨ v.IsJsonObject ∧
      ∃ u, u.isUnion = true ∧ Ty.json.isSubtype u = true ∧ .mapOf u ∈ t.alternatives := by
  have hjudged (hmapping : v.IsMappingIfMap) (hobject : ¬ v.IsJsonObject) : t.admits v = true := by
    rw [admits_eq_isSubtype hmapping hobject] at h ⊢
    exact isSubtype_trans h hsub
  have halternative (a) (ha : a ∈ s.alternatives) : ∃ b ∈ t.alternatives, Below a b :=
    below_iff_alternatives.mp (below_of_isSubtype hsub) a ha
  cases v with
  | map m =>
    obtain ⟨a, ha, h⟩ := admits_iff_alternative.mp h
    obtain ⟨b, hb, hbelow⟩ := halternative a ha
    have ha : a.isUnion = false := not_union_of_mem_alternatives ha
    have hb' : b.isUnion = false := not_union_of_mem_alternatives hb
    by_cases hm : m.ty = .json
    · -- this is the one case in which the check on the left says more than subtyping does
      rcases admits_jsonObject_of_below hm ha hb' hbelow h with h | ⟨u, rfl, hunion, hu⟩
      · exact .inl (admits_iff_alternative.mpr ⟨b, hb, h⟩)
      · exact .inr ⟨hm, u, hunion, hu, hb⟩
    · refine .inl (admits_iff_alternative.mpr ⟨b, hb, (admits_map_iff hm hb').mpr ?_⟩)
      rcases (admits_map_iff hm ha).mp h with rfl | ⟨hmapping, h⟩
      · exact .inl (hbelow.eq_any hb')
      · exact (isMapping_of_isSubtype hmapping hb' (isSubtype_of_below hbelow)).imp_right
          fun hb => ⟨hb, isSubtype_trans h (isSubtype_of_below hbelow)⟩
  | _ => exact .inl (hjudged trivial id)

theorem admits_of_isSubtype_object :
    (Ty.mapOf .json).isSubtype (.union [.string, .openMap] false) = true ∧
    (Ty.mapOf .json).admits (.map (.empty .json)) = true ∧
    (Ty.union [.string, .openMap] false).admits (.map (.empty .json)) = true := by
  have hsub : (Ty.mapOf .json).isSubtype (.union [.string, .openMap] false) = true := by decide
  have hadmits : (Ty.mapOf .json).admits (.map (.empty .json)) = true := by decide
  refine ⟨hsub, hadmits, ?_⟩
  rcases admits_of_isSubtype hsub hadmits with h | ⟨-, u, -, -, hmem⟩
  · exact h
  · simp [alternatives, allAlternatives] at hmem

/-- A JSON object is a map of JSON, and that is below the maps whose values may be missing. It is
not one of these. -/
theorem admission_not_closed_upwards :
    ¬ ∀ (s t : Ty) (v : Value), s.isSubtype t = true → s.admits v = true → t.admits v = true := by
  intro h
  exact absurd (h (.mapOf .json) (.mapOf (.optional .json)) (.map ⟨.json, [("k", .int 1)], false⟩)
    (by decide) (by decide)) (by decide)

end Ty

end TypedJson
