import TypedJson.Json
import TypedJson.Value.Freeze
import TypedJson.Proofs.Contents
import TypedJson.Proofs.Equality
import TypedJson.Proofs.Nesting

/-!
# TypedJson — documents among the values

A document becomes a value with arrays of `json` and with JSON objects, and its numbers are no NaN.
Such values take part in every conversion: they are the sources, and under `any`, `json` and open
maps they are what results are made of.

* **`Value.IsDocument`** — the shape of these values, frozen or not;
* **`Json.isDocument_toValue`** — documents have it;
* **`Value.IsDocument.numEq_of_encodeEntry`** — converted to JSON, they come out equal;
* **`Value.IsDocument.exists_encodeEntry`** — and they do come out, if the limit allows their
  nesting.
-/

namespace TypedJson

/-- The scalars of documents. -/
def Scalar.IsDocument : Scalar → Prop
  | .int _ | .string _ | .boolean _ => True
  | .float x => x.isNaN = false
  | .decimal _ | .byte _ => False

/-- How a document appears as a value, each part of it for itself. -/
def Value.IsDocumentPart : Value → Prop
  | .null => True
  | .scalar s => s.IsDocument
  | .array a => a.elementType = .json
  | .map m => m.ty = .json ∧ Entries.Distinct m.entries

/-- A value that is the value of a document, freeze flags and storages aside. -/
def Value.IsDocument (v : Value) : Prop := v.Everywhere IsDocumentPart

/-! ## The values of documents -/

/-- A number of a document is an integer or a float, and the float is finite. -/
theorem JsonNumber.isDocument_toScalar (n : JsonNumber) : n.toScalar.IsDocument := by
  cases n with
  | int n least most =>
    rw [toScalar]
    split
    · trivial
    · exact Binary64.isNaN_ofInt n
  | float x finite => exact Binary64.isNaN_of_isFinite finite

/-- **The value of a document**, which keeps its keys distinct. -/
theorem Json.isDocument_toValue (j : Json) (hkeyed : j.toValue.Keyed) : j.toValue.IsDocument := by
  induction j with
  | null => exact Value.everywhere_null.mpr trivial
  | bool b => exact Value.everywhere_scalar.mpr trivial
  | number n => exact Value.everywhere_scalar.mpr n.isDocument_toScalar
  | string s => exact Value.everywhere_scalar.mpr trivial
  | array items ih =>
    rw [toValue, toValues_eq_map] at hkeyed ⊢
    refine Value.everywhere_array.mpr ⟨rfl, fun v hv => ?_⟩
    obtain ⟨item, hitem, rfl⟩ := List.mem_map.mp hv
    exact ih item hitem (hkeyed.item hv)
  | object entries ih =>
    rw [toValue, toEntries_eq_map] at hkeyed ⊢
    -- distinct keys are the one thing that the shape of a document does not give
    refine Value.everywhere_map.mpr ⟨⟨rfl, hkeyed.self⟩, fun e he => ?_⟩
    obtain ⟨entry, hentry, rfl⟩ := List.mem_map.mp he
    exact ih entry hentry (hkeyed.entry he)

namespace Value.IsDocument

/-- Freezing does not change what a value is the document of. -/
theorem freeze {v : Value} (h : v.IsDocument) : v.freeze.IsDocument := by
  induction v with
  | null => exact h
  | scalar s => exact h
  | array a ih =>
    obtain ⟨hself, hitems⟩ := everywhere_array.mp h
    refine everywhere_array.mpr ⟨?_, fun w hw => ?_⟩
    · rw [TypedArray.freeze_eq]
      exact hself
    · rw [TypedArray.toList_freeze] at hw
      obtain ⟨v, hv, rfl⟩ := List.mem_map.mp hw
      exact ih v hv (hitems v hv)
  | map m ih =>
    obtain ⟨⟨hty, hdistinct⟩, hentries⟩ := everywhere_map.mp h
    rw [Value.freeze, TypedMap.freeze_eq]
    refine everywhere_map.mpr ⟨⟨hty, ?_⟩, fun e he => ?_⟩
    · show (Entries.keys _).Nodup
      rw [Entries.keys_mapped]
      exact hdistinct
    · obtain ⟨entry, hentry, rfl⟩ := List.mem_map.mp he
      exact ih entry hentry (hentries entry hentry)

/-- The only type that a document is declared with is `json`. -/
theorem everywhere {P : Part → Prop} (hjson : P (.ty .json))
    (hvalue : ∀ v, IsDocumentPart v → P (.value v)) {v : Value} (h : v.IsDocument) :
    (Part.value v).Everywhere P := by
  induction v with
  | null => exact Part.everywhere_null.mpr (hvalue _ h.self)
  | scalar s => exact Part.everywhere_scalar.mpr (hvalue _ h.self)
  | array a ih =>
    obtain ⟨hself, hitems⟩ := everywhere_array.mp h
    -- the only type inside a document is `json`, which has no parts of its own
    have htype : (Part.ty a.elementType).Everywhere P := by
      rw [show a.elementType = .json from hself]
      exact Part.everywhere_json.mpr hjson
    exact Part.everywhere_array.mpr ⟨hvalue _ hself, htype, fun v hv => ih v hv (hitems v hv)⟩
  | map m ih =>
    obtain ⟨hself, hentries⟩ := everywhere_map.mp h
    have htype : (Part.ty m.ty).Everywhere P := by
      rw [hself.1]
      exact Part.everywhere_json.mpr hjson
    exact Part.everywhere_map.mpr ⟨hvalue _ hself, htype, fun e he => ih e he (hentries e he)⟩

theorem keyed {v : Value} (h : v.IsDocument) : v.Keyed := by
  refine h.everywhere trivial fun w hw => ?_
  cases w with
  | map m => exact hw.2
  | _ => trivial

theorem nanFree {v : Value} (h : v.IsDocument) : v.NaNFree := by
  refine h.everywhere trivial fun w hw => ?_
  cases w with
  | scalar s => cases s <;> first | exact hw | trivial
  | _ => trivial

/-- A document is JSON. -/
theorem admits_json {v : Value} (h : v.IsDocument) : Ty.json.admits v = true := by
  cases v with
  | null => rfl
  | scalar s => rfl
  | array a => exact Ty.admits_json_array h.self
  | map m => exact Ty.admits_json_map h.self.1

theorem asObject? {m : TypedMap} (h : (Value.map m).IsDocument) :
    (Value.map m).asObject? = some m := by
  simp [Value.asObject?, h.self.1]

theorem numEq_self {v : Value} (h : v.IsDocument) : v.numEq v = true :=
  Value.numEq_self h.keyed h.nanFree

/-! ## Documents converted to JSON -/

/-- The arrays of a document are arrays of `json`, which convert their elements one by one. -/
theorem encode_eq_ok_iff {a out : TypedArray} (h : (Value.array a).IsDocument) {depth : Depth} :
    a.encode depth = .ok out ↔
      ∃ inner, depth.enter = .ok inner ∧ ∃ ws,
        List.Forall₂ (fun v w => v.encodeEntry .json inner = .ok w) a.toList ws ∧
        out = .ofBoxed .json ws := by
  obtain ⟨helement, hitems⟩ := everywhere_array.mp h
  have htype : a.elementType = .json := helement
  have hadmitted : ∀ v ∈ a.toList, a.elementType.admits v = true := by
    intro v hv
    rw [htype]
    exact admits_json (hitems v hv)
  have hnormal : ∀ v ∈ a.toList, a.elementType.normalize v = v := by
    intro v hv
    rw [htype]
    rfl
  rw [TypedArray.encode_eq_ok_iff hadmitted hnormal, htype]
  have hentry (v : Value) (inner : Depth) :
      v.encodeElement true inner = v.encodeEntry .json inner :=
    encodeElement_eq_encodeEntry (fun _ _ => rfl) inner
  simp only [Ty.isJsonCompatible, hentry]

/-- The objects of a document are passed on. -/
theorem encodeEntry_map {m : TypedMap} (h : (Value.map m).IsDocument) (depth : Depth) :
    (Value.map m).encodeEntry .json depth = .ok (.map m) :=
  TypedMap.encodeEntry_object h.self.1 .json depth

/-- **A document comes out equal.** -/
theorem numEq_of_encodeEntry {v w : Value} {depth : Depth} (h : v.IsDocument)
    (hencode : v.encodeEntry .json depth = .ok w) : w.numEq v = true := by
  -- the induction is on the source: the result is inspected by what the conversion did to it
  induction v generalizing w depth with
  | null =>
    cases hencode
    rfl
  | scalar s =>
    obtain ⟨-, rfl⟩ := Scalar.encode_eq_ok_iff.mp hencode
    exact h.numEq_self
  | array a ih =>
    obtain ⟨out, hout, rfl⟩ := map_eq_ok_iff.mp hencode
    obtain ⟨helement, hitems⟩ := everywhere_array.mp h
    obtain ⟨inner, -, ws, hws, rfl⟩ := h.encode_eq_ok_iff.mp hout
    refine TypedArray.numEq_iff.mpr ⟨?_, ?_⟩
    · rw [show a.elementType = .json from helement]
      rfl
    · refine (forall₂_imp_of_mem hws fun v hv w _ hw => ?_).flip
      exact ih v hv (hitems v hv) hw
  -- objects are handed over as they are, so only arrays are compared element by element
  | map m _ =>
    rw [h.encodeEntry_map] at hencode
    cases hencode
    exact h.numEq_self

/-- **A document comes out if there is room for it.** -/
theorem exists_encodeEntry {v : Value} {depth : Depth} (h : v.IsDocument)
    (hroom : depth.HasRoom v.nesting) : ∃ w, v.encodeEntry .json depth = .ok w := by
  induction v generalizing depth with
  | null => exact ⟨.null, rfl⟩
  | scalar s =>
    -- the one scalar without a JSON form is the byte, and no document holds it
    have hjson : s.kind.isJson = true := by
      have hscalar : s.IsDocument := h.self
      cases s <;> first | rfl | cases hscalar
    exact ⟨.scalar s, Scalar.encode_eq_ok_iff.mpr ⟨⟨rfl, hjson⟩, rfl⟩⟩
  | array a ih =>
    obtain ⟨-, hitems⟩ := everywhere_array.mp h
    obtain ⟨inner, henter, hinner⟩ := TypedArray.hasRoom_iff.mp hroom
    obtain ⟨ws, hws⟩ := exists_forall₂ fun v hv => ih v hv (hitems v hv) (hinner v hv)
    have hout : a.encode depth = .ok (.ofBoxed .json ws) :=
      h.encode_eq_ok_iff.mpr ⟨inner, henter, ws, hws, rfl⟩
    exact ⟨_, map_eq_ok_iff.mpr ⟨_, hout, rfl⟩⟩
  | map m _ => exact ⟨_, h.encodeEntry_map depth⟩

end Value.IsDocument

end TypedJson
