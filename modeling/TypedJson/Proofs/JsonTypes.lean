import TypedJson.Proofs.Replay
import TypedJson.Proofs.Thresholds

/-!
# TypedJson — which types are JSON

There are two tests for JSON. Conversion to JSON lets the scalars of an array pass if the declared
element type is made of JSON throughout. A write into a container of JSON asks whether a type is
below `json`, and subtyping compares types and opens unions before it looks at what they are made
of. For each type the two give the same answer. So the arrays whose scalars get through a conversion
are the arrays that a container of JSON takes.

* **`Ty.isJsonCompatible_eq_isSubtype`** — the tests coincide;
* **`Ty.isJsonCompatible_of_isSubtype`** — what is below a JSON type is JSON;
* **`TypedArray.exists_encode_iff_of_leaves`**, **`TypedArray.isJsonCompatible_of_encode`** — what
  the test decides in a conversion;
* **`jsonTests_coincide`** — all of this, and what the test decides in a write.
-/

namespace TypedJson

namespace Ty

/-- **The two tests coincide.** -/
theorem isJsonCompatible_eq_isSubtype (t : Ty) : t.isJsonCompatible = t.isSubtype .json := by
  rw [Bool.eq_iff_iff]
  exact isSubtype_json_iff.symm

theorem isJsonCompatible_of_isSubtype {s t : Ty} (h : s.isSubtype t = true)
    (ht : t.isJsonCompatible = true) : s.isJsonCompatible = true :=
  (below_of_isSubtype h).isJsonCompatible ht

/-- Scalar types are JSON. That of bytes is too, although no byte has a JSON form. -/
theorem isJsonCompatible_of_scalar {t : Ty} (h : ∃ k, t = .scalar k) :
    t.isJsonCompatible = true := by
  obtain ⟨k, rfl⟩ := h
  rfl

/-- Where JSON is expected an array is judged by the test of its element type. -/
theorem admits_json_array_eq (a : TypedArray) :
    Ty.json.admits (.array a) = a.elementType.isJsonCompatible := by
  rw [isJsonCompatible_eq_isSubtype]
  rfl

end Ty

/-! ## Scalars in a conversion -/

/-- A null or a scalar that has a JSON form. -/
def Value.IsJsonLeaf : Value → Prop
  | .null => True
  | .scalar s => s.kind.isJson = true
  | _ => False

/-- Such an element is converted if it is null or scalars may pass. -/
theorem Value.IsJsonLeaf.exists_encodeElement_iff {v : Value} (h : v.IsJsonLeaf) {allowed : Bool}
    {depth : Depth} :
    (∃ w, v.encodeElement allowed depth = .ok w) ↔ allowed = true ∨ v = .null := by
  cases v with
  | null => exact iff_of_true ⟨.null, rfl⟩ (.inr rfl)
  | scalar s =>
    have hjson : s.kind.isJson = true := h
    show (∃ w, s.encode allowed = .ok w) ↔ _
    simp [Scalar.encode_eq_ok_iff, hjson]
  | _ => cases h

namespace TypedArray

variable {a : TypedArray} {depth : Depth}

/-- **An array of leaves is converted where it may be entered**, if its element type is JSON.
Otherwise nothing but nulls gets through. -/
theorem exists_encode_iff_of_leaves (hleaves : ∀ v ∈ a.toList, v.IsJsonLeaf) :
    (∃ out, a.encode depth = .ok out) ↔ (∃ inner, depth.enter = .ok inner) ∧
      (a.elementType.isJsonCompatible = true ∨ ∀ v ∈ a.toList, v = .null) := by
  -- where the array is copied without a look at its elements its type is a scalar with a JSON form,
  -- which is the left disjunct
  rcases a.exists_encode_cases with ⟨hscalar, hcopy⟩ | hloop
  · rw [hcopy, and_iff_left (.inl (Ty.isJsonCompatible_of_scalar hscalar))]
  · have hitems (inner : Depth) :
        (∀ v ∈ a.toList, ∃ w, v.encodeElement a.elementType.isJsonCompatible inner = .ok w) ↔
          a.elementType.isJsonCompatible = true ∨ ∀ v ∈ a.toList, v = .null := by
      rw [forall₂_congr fun v hv => (hleaves v hv).exists_encodeElement_iff]
      cases a.elementType.isJsonCompatible <;> simp
    simp only [hloop, hitems, exists_and_right]

/-- A scalar gets through a conversion only if the element type is JSON, whatever else is in the
array. -/
theorem isJsonCompatible_of_encode {out : TypedArray} {s : Scalar} (h : a.encode depth = .ok out)
    (hs : .scalar s ∈ a.toList) : a.elementType.isJsonCompatible = true := by
  obtain ⟨inner, -, ⟨hscalar, -⟩ | ⟨ws, hws, -⟩⟩ := encode_eq_ok h
  · exact Ty.isJsonCompatible_of_scalar hscalar
  · obtain ⟨w, -, hw⟩ := exists_right_of_mem (mapM_eq_ok_iff.mp hws) hs
    obtain ⟨⟨hallowed, -⟩, -⟩ := Scalar.encode_eq_ok_iff.mp hw
    exact hallowed

/-! ## Arrays as JSON -/

/-- What hangs on the answer to the question whether an array is JSON: the writes that would put it
into a container of JSON, and its scalars when it is converted itself. -/
structure JudgedAsJson (a : TypedArray) (json : Bool) : Prop where
  admits : Ty.json.admits (.array a) = json
  put (object : TypedMap) (key : String) : object.ty = .json →
    ((∃ after, object.put key (.array a) = .ok after) ↔ object.frozen = false ∧ json = true)
  set (out : TypedArray) (index : Int) : out.elementType = .json → out.storage.Fits .json →
    ((∃ after, out.set index (.array a) = .ok after) ↔
      out.frozen = false ∧ 0 ≤ index ∧ index ≤ out.size ∧ json = true)
  scalar (depth : Depth) (s : Scalar) : .scalar s ∈ a.toList →
    (∃ out, a.encode depth = .ok out) → json = true
  leaves (depth : Depth) : (∀ v ∈ a.toList, v.IsJsonLeaf) →
    ((∃ out, a.encode depth = .ok out) ↔
      (∃ inner, depth.enter = .ok inner) ∧ (json = true ∨ ∀ v ∈ a.toList, v = .null))

/-- **The test of the element type gives the answer.** -/
theorem judgedAsJson (a : TypedArray) : a.JudgedAsJson a.elementType.isJsonCompatible where
  admits := Ty.admits_json_array_eq a
  put object key hty := by
    rw [TypedMap.exists_put_iff, hty, ← Ty.admits_json_array_eq]
    exact Iff.rfl
  set out index hty hfits := by
    rw [exists_set_iff (hty ▸ hfits), hty, Ty.admits_json_array_eq]
  scalar depth s hs := by
    rintro ⟨out, h⟩
    exact isJsonCompatible_of_encode h hs
  leaves depth hleaves := exists_encode_iff_of_leaves hleaves

end TypedArray

/-- **The two tests for JSON coincide, and what is below a JSON type is JSON.** So containers of
JSON take exactly those arrays whose scalars may pass in a conversion to JSON. -/
theorem jsonTests_coincide :
    (∀ t : Ty, t.isJsonCompatible = t.isSubtype .json) ∧
    (∀ s t : Ty, s.isSubtype t = true → t.isJsonCompatible = true → s.isJsonCompatible = true) ∧
    ∀ a : TypedArray, a.JudgedAsJson a.elementType.isJsonCompatible := by
  refine ⟨Ty.isJsonCompatible_eq_isSubtype, ?_, TypedArray.judgedAsJson⟩
  intro s t h ht
  exact Ty.isJsonCompatible_of_isSubtype h ht

/-- A record with a level that is no number by default. All other keys are allowed, but no value is
admitted under them. -/
def RecordTy.reading : RecordTy where
  name := "Reading"
  fields := [("level", ⟨.float, .float .nan⟩)]
  rest := some (.union [] true)

/-- A mark and a missing mark, in an array of this element type. -/
def TypedArray.marks (element : Ty) : TypedArray := .ofBoxed element [.int 3, .null]

/-- Two arrays of the same elements, typed `int?[]` and `any[]`: the first passes every test of the
json type and the second none. -/
theorem jsonTests_coincide_marks :
    (Ty.record .reading).isJsonCompatible = true ∧
    (∃ after, (TypedMap.empty .json).put "marks" (.array (.marks (.optional .int))) = .ok after) ∧
    (∃ out, (TypedArray.marks (.optional .int)).encode (.root 1) = .ok out) ∧
    (¬ ∃ after, (TypedArray.empty .json).set 0 (.array (.marks .any)) = .ok after) ∧
    ¬ ∃ out, (TypedArray.marks .any).encode (.root 1) = .ok out := by
  obtain ⟨-, hdown, hjudged⟩ := jsonTests_coincide
  have hleaves (element : Ty) (v : Value) (hv : v ∈ (TypedArray.marks element).toList) :
      v.IsJsonLeaf := by
    rcases List.mem_pair.mp hv with rfl | rfl
    · rfl
    · trivial
  refine ⟨?_, ?_, ?_, ?_, ?_⟩
  · exact hdown (.record .reading) (.mapOf (.optional .json)) (by decide) (by decide)
  · exact ((hjudged (.marks (.optional .int))).put (.empty .json) "marks" rfl).mpr ⟨rfl, by decide⟩
  · exact ((hjudged (.marks (.optional .int))).leaves (.root 1) (hleaves _)).mpr
      ⟨⟨_, rfl⟩, .inl (by decide)⟩
  · intro h
    obtain ⟨-, -, -, hjson⟩ := ((hjudged (.marks .any)).set (.empty .json) 0 rfl
      (TypedArray.fits_empty .json)).mp h
    cases hjson
  · intro h
    have hjson := (hjudged (.marks .any)).scalar (.root 1) (.int 3) List.mem_cons_self h
    cases hjson

end TypedJson
