import TypedJson.Proofs.Conformance
import TypedJson.Proofs.Equivalence
import TypedJson.Proofs.Subtyping

/-!
# TypedJson — the deep meaning of types

What a type means is a matter of contents: an array of integers is an array all of whose elements
are integers. The checks of the library look at declared types instead. This module says what types
mean and that the checks are right:

* **`Ty.Contains`** — the deep meaning, a walk through the contents;
* **`Ty.Contains.of_below`** — subtyping is sound for it;
* **`Ty.contains_of_admits`** — so is admission, for values whose containers keep their promises.

Subtyping is handled rule by rule. Two of the rules need an induction of their own, that equal types
mean the same and that the values of a JSON type are JSON; both go along the walk.
-/

namespace TypedJson

/-- The scalars of a scalar type. A byte passes for an integer, and an integer that fits into eight
bits passes for a byte. -/
def ScalarKind.Contains : ScalarKind → Scalar → Prop
  | .int, .int _ => True
  | .int, .byte _ => True
  | .byte, .byte _ => True
  | .byte, .int i => 0 ≤ i.toInt ∧ i.toInt ≤ 255
  | .float, .float _ => True
  | .decimal, .decimal _ => True
  | .string, .string _ => True
  | .boolean, .boolean _ => True
  | _, _ => False

/-- **The deep meaning of types.** The value with all of its contents belongs to the type, whatever
types its containers were declared with. -/
inductive Ty.Contains : Ty → Value → Prop
  | any (v : Value) : Contains .any v
  | null : Contains .null .null
  | scalar {k : ScalarKind} {s : Scalar} (h : k.Contains s) : Contains (.scalar k) (.scalar s)
  | jsonNull : Contains .json .null
  | jsonScalar (s : Scalar) : Contains .json (.scalar s)
  | jsonArray {a : TypedArray} (h : ∀ v ∈ a.toList, Contains .json v) :
    Contains .json (.array a)
  | jsonMap {m : TypedMap} (h : ∀ e ∈ m.entries, Contains .json e.2) : Contains .json (.map m)
  | union {t : Ty} {members : List Ty} {nullable : Bool} {v : Value} (ht : t ∈ members)
    (h : Contains t v) : Contains (.union members nullable) v
  | array {element : Ty} {a : TypedArray} (h : ∀ v ∈ a.toList, Contains element v) :
    Contains (.array element) (.array a)
  | openMap (m : TypedMap) : Contains .openMap (.map m)
  | mapOf {t : Ty} {m : TypedMap} (h : ∀ e ∈ m.entries, Contains t e.2) :
    Contains (.mapOf t) (.map m)
  | record {r : RecordTy} {m : TypedMap}
    (hkeys : ∀ e ∈ m.entries, ∃ t, r.typeForKey? e.1 = some t)
    (h : ∀ e ∈ m.entries, ∀ t, r.typeForKey? e.1 = some t → Contains t e.2) :
    Contains (.record r) (.map m)

/-- The check of scalars is their meaning. -/
theorem ScalarKind.contains_iff {k : ScalarKind} {s : Scalar} :
    k.Contains s ↔ s.hasKind k = true := by
  cases k <;> cases s <;> simp [ScalarKind.Contains, Scalar.hasKind, Scalar.kind]

namespace RecordTy

variable {r r' : RecordTy} {key : String} {t : Ty}

theorem keyed_typeForKey? (hkeyed : (Ty.record r).Keyed) (h : r.typeForKey? key = some t) :
    t.Keyed := by
  rcases typeForKey?_cases h with ⟨f, hf, rfl⟩ | hrest
  · exact hkeyed.field hf
  · exact hkeyed.rest hrest

theorem isJsonCompatible_typeForKey? (hjson : r.isJsonCompatible = true)
    (h : r.typeForKey? key = some t) : t.isJsonCompatible = true := by
  obtain ⟨hfields, hrest⟩ := isJsonCompatible_iff.mp hjson
  rcases typeForKey?_cases h with ⟨f, hf, rfl⟩ | ht
  · exact hfields f hf
  · exact hrest t ht

/-- Two lists of fields of one length, the keys of the first distinct and all found in the second:
then the second has no other keys. -/
theorem lookup_eq_none_of_length {fields others : List (String × Field)}
    (hdistinct : Entries.Distinct fields) (hlength : fields.length = others.length)
    (hfound : ∀ f ∈ fields, ∃ other, others.lookup f.1 = some other)
    (h : fields.lookup key = none) : others.lookup key = none := by
  rw [Entries.lookup_eq_none_iff] at h ⊢
  exact fun hmem => h ((hdistinct.keys_perm hlength hfound).mem_iff.mpr hmem)

/-- Equal record types ask equal types of the entries under a key. -/
theorem typeForKey?_of_numEq (hdistinct : Entries.Distinct r.fields) (heq : r.numEq r' = true)
    (h : r.typeForKey? key = some t) :
    ∃ t', r'.typeForKey? key = some t' ∧ t.numEq t' = true := by
  obtain ⟨-, hlength, hfields, hrest⟩ := numEq_iff.mp heq
  cases hlookup : r.fields.lookup key with
  | some field =>
    obtain ⟨other, hother, hfield⟩ := hfields _ (Entries.mem_of_lookup hlookup)
    have ht : t = field.ty := by
      simpa [typeForKey?, field?, hlookup] using h.symm
    refine ⟨other.ty, ?_, ht ▸ (Field.numEq_iff.mp hfield).1⟩
    simp [typeForKey?, field?, hother]
  | none =>
    -- as many fields on both sides: a name that is missing on one is missing on the other
    have hother : r'.fields.lookup key = none :=
      lookup_eq_none_of_length hdistinct hlength (fun f hf => (hfields f hf).imp fun _ => And.left)
        hlookup
    have ht : r.rest = some t := by
      simpa [typeForKey?, field?, hlookup] using h
    rcases Ty.numEqOption_iff.mp hrest with ⟨hr, -⟩ | ⟨u, t', hr, hr', hu⟩ <;>
      cases ht.symm.trans hr
    exact ⟨t', by simp [typeForKey?, field?, hother, hr'], hu⟩

end RecordTy

namespace Ty

/-! ## Subtyping is sound -/

/-- Equal types mean the same. -/
theorem Contains.of_numEq {s t : Ty} {v : Value} (hkeyed : s.Keyed) (heq : s.numEq t = true)
    (h : Contains s v) : Contains t v := by
  induction h generalizing t with
  | any v => cases t <;> first | exact .any v | cases heq
  | null => cases t <;> first | exact .null | cases heq
  | scalar h =>
    cases t with
    | scalar l => exact eq_of_beq heq ▸ .scalar h
    | _ => cases heq
  | jsonNull => cases t <;> first | exact .jsonNull | cases heq
  | jsonScalar s => cases t <;> first | exact .jsonScalar s | cases heq
  | jsonArray h => cases t <;> first | exact .jsonArray h | cases heq
  | jsonMap h => cases t <;> first | exact .jsonMap h | cases heq
  | union ht _ ih =>
    cases t with
    | union ts l =>
      obtain ⟨u, hu, heq⟩ := exists_numEq_of_mem (Bool.and_eq_true_iff.mp heq).1 ht
      exact .union hu (ih (hkeyed.member ht) heq)
    | _ => cases heq
  | array _ ih =>
    cases t with
    | array element => exact .array fun v hv => ih v hv hkeyed.element heq
    | _ => cases heq
  | openMap m =>
    cases t with
    | map constraint =>
      cases constraint with
      | none => exact .openMap m
      | some u => cases heq
    | _ => cases heq
  | mapOf _ ih =>
    cases t with
    | map constraint =>
      cases constraint with
      | none => cases heq
      | some u => exact .mapOf fun e he => ih e he hkeyed.constraint heq
    | _ => cases heq
  | record hkeys _ ih =>
    rename_i r m _
    -- entries are typed by their keys, and equal record types give a key equal types
    cases t with
    | record r' =>
      have htypes (e) (he : e ∈ m.entries) : ∃ u u', r.typeForKey? e.1 = some u ∧
          r'.typeForKey? e.1 = some u' ∧ u.numEq u' = true := by
        obtain ⟨u, hu⟩ := hkeys e he
        obtain ⟨u', hu', hequal⟩ := RecordTy.typeForKey?_of_numEq hkeyed.self heq hu
        exact ⟨u, u', hu, hu', hequal⟩
      refine .record (fun e he => ?_) fun e he t ht => ?_
      · obtain ⟨u, u', -, hu', -⟩ := htypes e he
        exact ⟨u', hu'⟩
      · obtain ⟨u, u', hu, hu', hequal⟩ := htypes e he
        cases hu'.symm.trans ht
        exact ih e he u hu (RecordTy.keyed_typeForKey? hkeyed hu) hequal
    | _ => cases heq

/-- The values of a JSON type are JSON. -/
theorem Contains.json_of_isJsonCompatible {t : Ty} {v : Value} (hjson : t.isJsonCompatible = true)
    (h : Contains t v) : Contains .json v := by
  induction h with
  | any v => cases hjson
  | null => exact .jsonNull
  | scalar _ => exact .jsonScalar _
  | jsonNull => exact .jsonNull
  | jsonScalar s => exact .jsonScalar s
  | jsonArray h => exact .jsonArray h
  | jsonMap h => exact .jsonMap h
  | union ht _ ih => exact ih (isJsonCompatible_union_iff.mp hjson _ ht)
  | array _ ih => exact .jsonArray fun v hv => ih v hv hjson
  | openMap m => cases hjson
  | mapOf _ ih => exact .jsonMap fun e he => ih e he hjson
  | record hkeys _ ih =>
    refine .jsonMap fun e he => ?_
    obtain ⟨u, hu⟩ := hkeys e he
    exact ih e he u hu (RecordTy.isJsonCompatible_typeForKey? hjson hu)

theorem keyed_any : Ty.any.Keyed := by
  intro p hp
  cases hp
  trivial

/-- **Subtyping is sound for the deep meaning**, rule by rule. -/
theorem Contains.of_below {s t : Ty} {v : Value} (hbelow : Below s t) (hkeyed : s.Keyed)
    (h : Contains s v) : Contains t v := by
  induction hbelow generalizing v with
  | of_beq heq => exact h.of_numEq hkeyed heq
  | any s => exact .any v
  | unionLeft _ ih =>
    cases h with
    | union hs h => exact ih _ hs (hkeyed.member hs) h
  | unionRight ht _ ih => exact .union ht (ih hkeyed h)
  | byteInt =>
    cases h with
    | scalar h =>
      rename_i s
      cases s <;> first | exact .scalar trivial | cases h
  | json hjson => exact h.json_of_isJsonCompatible hjson
  | array _ ih =>
    cases h with
    | array h => exact .array fun v hv => ih hkeyed.element (h v hv)
  | mapOpen constraint =>
    cases h with
    | openMap m => exact .openMap m
    | mapOf _ => exact .openMap _
  | mapOf _ ih =>
    cases h with
    | mapOf h => exact .mapOf fun e he => ih hkeyed.constraint (h e he)
  | openMapOf _ ih =>
    cases h with
    | openMap m =>
      -- the constraint lies above `any`
      exact .mapOf fun e _ => ih keyed_any (.any e.2)
  | recordOpen r =>
    cases h with
    | record _ _ => exact .openMap _
  | recordMapOf _ _ ihFields ihRest =>
    cases h with
    | record hkeys h =>
      refine .mapOf fun e he => ?_
      obtain ⟨u, hu⟩ := hkeys e he
      rcases RecordTy.typeForKey?_cases hu with ⟨f, hf, rfl⟩ | hrest
      · exact ihFields f hf (hkeyed.field hf) (h e he _ hu)
      · exact ihRest u hrest (hkeyed.rest hrest) (h e he u hu)

/-! ## Admission is sound -/

/-- An array whose elements lie in its element type lies in every type that admits it. -/
theorem contains_array_of_admits {a : TypedArray} (hkeyed : a.elementType.Keyed)
    (hitems : ∀ v ∈ a.toList, Contains a.elementType v) {t : Ty}
    (h : t.admits (.array a) = true) : Contains t (.array a) := by
  induction t with
  | any => exact .any _
  | json =>
    -- the check compares element types, the meaning asks for each element
    have hbelow : Below a.elementType .json := below_of_isSubtype h
    exact .jsonArray fun v hv => (hitems v hv).of_below hbelow hkeyed
  | array element =>
    have hbelow : Below a.elementType element := below_of_isSubtype h
    exact .array fun v hv => (hitems v hv).of_below hbelow hkeyed
  | union members nullable ih =>
    obtain ⟨t, ht, h⟩ := admits_union_iff.mp h
    exact .union ht (ih t ht h)
  | _ => cases h

/-- A map that lies in its own type lies in every type that admits it. -/
theorem contains_map_of_admits {m : TypedMap} (hkeyed : m.ty.Keyed)
    (hself : Contains m.ty (.map m)) {t : Ty} (h : t.admits (.map m) = true) :
    Contains t (.map m) := by
  -- JSON objects are held against the constraint of a map type directly
  have hjson (hty : m.ty.isJson = true) (e) (he : e ∈ m.entries) : Contains .json e.2 := by
    rw [eq_json_of_isJson hty] at hself
    cases hself with
    | jsonMap h => exact h e he
  induction t with
  | any => exact .any _
  | json => exact hself.of_below (below_of_isSubtype h) hkeyed
  | openMap => exact .openMap m
  | mapOf t =>
    cases hty : m.ty.isJson with
    | true =>
      rw [admits, if_pos hty, constraintAdmitsJson, Bool.or_eq_true] at h
      rcases h with h | h
      · rw [eq_json_of_isJson h]
        exact .mapOf (hjson hty)
      · rw [eq_any_of_isAny h]
        exact .mapOf fun e _ => .any e.2
    | false =>
      rw [admits, hty, if_neg Bool.false_ne_true] at h
      exact hself.of_below (below_of_isSubtype h) hkeyed
  | record r => exact hself.of_below (below_of_isSubtype h) hkeyed
  | union members nullable ih =>
    obtain ⟨t, ht, h⟩ := admits_union_iff.mp h
    exact .union ht (ih t ht h)
  | _ => cases h

theorem contains_null_of_admits {t : Ty} (h : t.admits .null = true) : Contains t .null := by
  induction t with
  | any => exact .any _
  | json => exact .jsonNull
  | null => exact .null
  | union members nullable ih =>
    obtain ⟨t, ht, h⟩ := admits_union_iff.mp h
    exact .union ht (ih t ht h)
  | _ => cases h

/-- A type that admits a scalar contains it, through the alternative of a union that admits it. -/
theorem contains_scalar_of_admits {s : Scalar} {t : Ty} (h : t.admits (.scalar s) = true) :
    Contains t (.scalar s) := by
  induction t with
  | scalar k => exact .scalar (ScalarKind.contains_iff.mpr h)
  | any => exact .any _
  | json => exact .jsonScalar s
  | union members nullable ih =>
    obtain ⟨t, ht, h⟩ := admits_union_iff.mp h
    exact .union ht (ih t ht h)
  | _ => cases h

/-- The entries of a map that pass its check, each in the types that admit it, put the map into its
own type. -/
theorem contains_self_of_checked {m : TypedMap} (hmapping : m.ty.isMapping = true)
    (hchecked : Value.Checked (.map m))
    (hentries : ∀ e ∈ m.entries, ∀ t : Ty, t.admits e.2 = true → Contains t e.2) :
    Contains m.ty (.map m) := by
  have hentry (e) (he : e ∈ m.entries) : m.rejection? e.1 e.2 = none := hchecked e he
  -- what the entries were checked against when they were put depends on the type of the map
  cases hty : m.ty with
  | json =>
    exact .jsonMap fun e he => hentries e he _ ((TypedMap.rejection?_json hty).mp (hentry e he))
  | map constraint =>
    cases constraint with
    | none => exact .openMap m
    | some t =>
      exact .mapOf fun e he => hentries e he t ((TypedMap.rejection?_mapOf hty).mp (hentry e he))
  | record r =>
    refine .record (fun e he => ?_) fun e he t ht => ?_
    · obtain ⟨t, ht, -⟩ := (TypedMap.rejection?_record hty).mp (hentry e he)
      exact ⟨t, ht⟩
    · obtain ⟨u, hu, hadmits⟩ := (TypedMap.rejection?_record hty).mp (hentry e he)
      cases hu.symm.trans ht
      exact hentries e he t hadmits
  | _ =>
    rw [hty] at hmapping
    cases hmapping

/-- **Admission is sound for the deep meaning.** A value whose containers keep their promises lies
in every type that admits it. -/
theorem contains_of_admits {v : Value} (hkeyed : v.Keyed) (hconforms : v.Conforms)
    (hmappings : v.MapsAreMappings) {t : Ty} (h : t.admits v = true) : Contains t v := by
  -- on the value, for all types at once: an element is contained in the element type of its own
  -- array first, then in the one asked for
  induction v generalizing t with
  | null => exact contains_null_of_admits h
  | scalar s => exact contains_scalar_of_admits h
  | array a ih =>
    obtain ⟨hchecked, hconforms⟩ := Value.everywhere_array.mp hconforms
    obtain ⟨-, hmappings⟩ := Value.everywhere_array.mp hmappings
    exact contains_array_of_admits hkeyed.elementType
      (fun v hv => ih v hv (hkeyed.item hv) (hconforms v hv) (hmappings v hv) (hchecked v hv)) h
  | map m ih =>
    obtain ⟨hchecked, hconforms⟩ := Value.everywhere_map.mp hconforms
    obtain ⟨hmapping, hmappings⟩ := Value.everywhere_map.mp hmappings
    exact contains_map_of_admits hkeyed.mapTy
      (contains_self_of_checked hmapping hchecked fun e he t ht =>
        ih e he (hkeyed.entry he) (hconforms e he) (hmappings e he) ht) h

/-- **The shallow checks are sound.** A subtype holds no value that its supertype does not hold, and
what a type admits by its declared type lies in that type with all of its contents. -/
theorem checks_sound_for_contents :
    (∀ s t : Ty, s.Keyed → s.isSubtype t = true → ∀ v, s.Contains v → t.Contains v) ∧
    (∀ v : Value, v.Keyed → v.Conforms → v.MapsAreMappings →
      ∀ t : Ty, t.admits v = true → t.Contains v) := by
  constructor
  · intro s t hkeyed hsub v h
    exact h.of_below (below_of_isSubtype hsub) hkeyed
  · intro v hkeyed hconforms hmappings t h
    exact contains_of_admits hkeyed hconforms hmappings h

/-- A record of a byte and of integers under all other keys. -/
def reading : RecordTy where
  name := "Reading"
  fields := [("level", ⟨.byte, .byte 0⟩)]
  rest := some .int

/-- A reading in an array of JSON, an integer under the key of the byte and a byte elsewhere. -/
def readings : Value :=
  .array ⟨.json, .boxed [.map ⟨.record reading, [("level", .int 3), ("next", .byte 7)], false⟩],
    false⟩

/-- A record of a byte and integers is below `map<int>`, so what it holds are maps of integers. The
array of readings is admitted as `json`, so it is JSON throughout. -/
theorem checks_sound_for_readings :
    (Ty.record reading).isSubtype (.mapOf .int) = true ∧
      (∀ v, (Ty.record reading).Contains v → (Ty.mapOf .int).Contains v) ∧
      Ty.json.admits readings = true ∧ Ty.json.Contains readings := by
  obtain ⟨hsubtype, hadmission⟩ := checks_sound_for_contents
  have htype : (Ty.record reading).Keyed := by
    simp [Keyed, reading, Part.HasDistinctKeys, Entries.Distinct, Entries.keys]
  have hvalue : readings.Keyed := by
    simp [Value.Keyed, readings, TypedArray.toList, Storage.toList, reading, Part.HasDistinctKeys,
      Entries.Distinct, Entries.keys]
  have hconforms : readings.Conforms := by
    simp [Value.Conforms, readings, TypedArray.toList, Storage.toList]
    decide
  have hmappings : readings.MapsAreMappings := by
    simp [Value.MapsAreMappings, readings, TypedArray.toList, Storage.toList, Value.IsMappingIfMap,
      isMapping]
  exact ⟨rfl, hsubtype _ _ htype rfl, rfl, hadmission _ hvalue hconforms hmappings _ rfl⟩

end Ty

end TypedJson
