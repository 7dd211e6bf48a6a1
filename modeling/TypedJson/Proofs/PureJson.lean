import TypedJson.Proofs.Contents
import TypedJson.Proofs.WellBuilt

/-!
# TypedJson — what comes out is JSON

Conversion to JSON rebuilds what it finds: arrays as arrays of `json`, maps and records as JSON
objects. A byte stops it. A JSON object inside a container is the exception. It is passed on as it
is, and since a JSON object may hold whatever is JSON by its type, an array of integers or a byte in
it comes out as well.

* **`Value.IsPureJson`** — no byte, no array but of `json` and no map but JSON objects, at any
  depth;
* **`Value.IsJsonBut`** — the same, where some JSON objects have been passed on;
* **`Value.isJsonBut_of_encodeEntry`** — conversion passes on JSON objects of its source and is pure
  around them;
* **`encode_isJson`** — the same for each entry point of the library, with what follows where the
  objects in the source are pure themselves.
-/

namespace TypedJson

/-! ## Pure JSON -/

namespace Value

/-- A value that is JSON itself, whatever is inside: a null, a scalar other than a byte, an array of
`json` or a JSON object. -/
def IsJsonPart : Value → Prop
  | .null => True
  | .scalar s => s.kind.isJson = true
  | .array a => a.elementType = .json
  | .map m => m.ty = .json

/-- JSON at every depth. -/
def IsPureJson (v : Value) : Prop := v.Everywhere IsJsonPart

/-- JSON at every depth, down to some JSON objects of which nothing else is said. -/
inductive IsJsonBut (passed : TypedMap → Prop) : Value → Prop
  | null : IsJsonBut passed .null
  | scalar {s : Scalar} (h : s.kind.isJson = true) : IsJsonBut passed (.scalar s)
  | array {a : TypedArray} (hty : a.elementType = .json) (h : ∀ v ∈ a.toList, IsJsonBut passed v) :
    IsJsonBut passed (.array a)
  | map {m : TypedMap} (hty : m.ty = .json) (h : ∀ e ∈ m.entries, IsJsonBut passed e.2) :
    IsJsonBut passed (.map m)
  | passed {m : TypedMap} (hty : m.ty = .json) (h : passed m) : IsJsonBut passed (.map m)

/-- Around pure JSON objects everything is pure. -/
theorem IsJsonBut.isPureJson {passed : TypedMap → Prop} {v : Value} (h : v.IsJsonBut passed)
    (hpassed : ∀ m, passed m → (Value.map m).IsPureJson) : v.IsPureJson := by
  induction h with
  | null => exact everywhere_null.mpr trivial
  | scalar h => exact everywhere_scalar.mpr h
  | array hty _ ih => exact everywhere_array.mpr ⟨hty, ih⟩
  | map hty _ ih => exact everywhere_map.mpr ⟨hty, ih⟩
  | passed _ h => exact hpassed _ h

/-- The elements of an array and the values in a map. -/
def contents : Value → List Value
  | .array a => a.toList
  | .map m => m.entries.map (·.2)
  | _ => []

/-- One level of `Everywhere`, for arrays and maps alike. -/
theorem everywhere_iff_contents {P : Value → Prop} {v : Value} :
    v.Everywhere P ↔ P v ∧ ∀ x ∈ v.contents, x.Everywhere P := by
  cases v with
  | array a => exact everywhere_array
  | map m => exact everywhere_map.trans (and_congr_right fun _ => List.forall_mem_map.symm)
  | _ => simp [contents]

/-- The JSON objects inside a value, the value itself apart. -/
def HoldsObject (v : Value) (m : TypedMap) : Prop :=
  m.ty = .json ∧ ∃ w ∈ v.contents, (Value.map m).Inside w

/-- `w.IsJsonOf v`: the value `w` is JSON, but for JSON objects that `v` holds. Where these are
pure, the whole is. -/
structure IsJsonOf (w v : Value) : Prop where
  self : w.IsJsonPart
  contents : ∀ x ∈ w.contents, x.IsJsonBut v.HoldsObject
  pure : (∀ m, v.HoldsObject m → (Value.map m).IsPureJson) → w.IsPureJson

end Value

/-! ## One container -/

/-- What has the form in which a type is stored already is stored as it is. -/
theorem Ty.normalize_of_isCanonical {t : Ty} {v : Value} (h : t.IsCanonical v) :
    t.normalize v = v := by
  cases t with
  | scalar k =>
    cases v with
    | scalar s => cases k <;> cases s <;> first | rfl | cases h
    | _ => rfl
  | _ => rfl

/-- A well-kept array is converted element by element, also where it is copied in one pass. -/
theorem TypedArray.WellKept.encode_eq_ok_iff {a out : TypedArray} {depth : Depth}
    (hkept : a.WellKept) :
    a.encode depth = .ok out ↔
      ∃ inner, depth.enter = .ok inner ∧ ∃ ws,
        List.Forall₂ (fun v w => v.encodeElement a.elementType.isJsonCompatible inner = .ok w)
          a.toList ws ∧
        out = .ofBoxed .json ws :=
  TypedArray.encode_eq_ok_iff hkept.admitted fun v hv =>
    Ty.normalize_of_isCanonical (hkept.canonical v hv)

/-- A column of integers keeps the promises of an array of integers. -/
theorem TypedArray.wellKept_ints (cells : List Int64) :
    (⟨.int, .packed (.ints cells), false⟩ : TypedArray).WellKept := by
  have hint (v) (hv : v ∈ (Storage.packed (.ints cells)).toList) : ∃ i, v = .int i := by
    obtain ⟨s, hs, rfl⟩ := List.mem_map.mp hv
    obtain ⟨i, -, rfl⟩ := List.mem_map.mp hs
    exact ⟨i, rfl⟩
  refine ⟨rfl, fun v hv => ?_, fun v hv => ?_⟩ <;> obtain ⟨i, rfl⟩ := hint v hv
  · rfl
  · trivial

variable {passed : TypedMap → Prop} {depth : Depth}

/-- An array comes out as an array of `json` of converted elements. -/
theorem TypedArray.isJsonBut_of_encode {a out : TypedArray} (hkept : a.WellKept)
    (hitems : ∀ v ∈ a.toList, ∀ depth w, v.encodeEntry .json depth = .ok w → w.IsJsonBut passed)
    (h : a.encode depth = .ok out) :
    out.elementType = .json ∧ ∀ w ∈ out.toList, w.IsJsonBut passed := by
  obtain ⟨inner, -, ws, hws, rfl⟩ := hkept.encode_eq_ok_iff.mp h
  refine ⟨rfl, fun w hw => ?_⟩
  obtain ⟨v, hv, hencode⟩ := exists_left_of_mem hws hw
  exact hitems v hv inner w (Value.encodeEntry_of_encodeElement hencode)

/-- A map or a record comes out as a JSON object of converted entries. -/
theorem TypedMap.isJsonBut_of_rebuild {m out : TypedMap}
    (hentries : ∀ e ∈ m.entries, ∀ depth w, e.2.encodeEntry .json depth = .ok w →
      w.IsJsonBut passed)
    (h : m.rebuild .json depth = .ok out) :
    out.ty = .json ∧ ∀ e ∈ out.entries, e.2.IsJsonBut passed := by
  obtain ⟨inner, -, hfold⟩ := rebuild_eq_ok h
  -- the object under construction has the property so far; an entry is new or was there
  refine foldlM_invariant (I := fun out : TypedMap => out.ty = .json ∧
    ∀ e ∈ out.entries, e.2.IsJsonBut passed) (fun e he s s' hs hstep => ?_)
    ⟨rfl, List.forall_mem_nil _⟩ hfold
  obtain ⟨w, hw, hput⟩ := store_eq_ok_iff.mp hstep
  obtain ⟨-, -, rfl⟩ := put_eq_ok_iff.mp hput
  refine ⟨hs.1, fun e' he' => ?_⟩
  rcases Entries.mem_insert he' with hold | rfl
  · exact hs.2 e' hold
  · exact hentries e he inner w hw

/-! ## All containers -/

/-- **Conversion is pure around the JSON objects that it passes on**, and these are in the
source. -/
theorem Value.isJsonBut_of_encodeEntry {v : Value} (hwell : v.WellBuilt)
    (hpassed : ∀ m : TypedMap, m.ty = .json → (Value.map m).Inside v → passed m) {w : Value}
    (h : v.encodeEntry .json depth = .ok w) : w.IsJsonBut passed := by
  induction v generalizing depth w with
  | null =>
    cases h
    exact .null
  | scalar s =>
    obtain ⟨⟨-, hjson⟩, rfl⟩ := Scalar.encode_eq_ok_iff.mp h
    exact .scalar hjson
  | array a ih =>
    obtain ⟨hkept, hitems⟩ := everywhere_array.mp hwell
    obtain ⟨out, hout, rfl⟩ := map_eq_ok_iff.mp h
    obtain ⟨hty, hcontents⟩ := TypedArray.isJsonBut_of_encode hkept (fun v hv depth w =>
      ih v hv (hitems v hv) fun m hm hinside => hpassed m hm (.element hv hinside)) hout
    exact .array hty hcontents
  -- a JSON object is one of those passed on, since it is inside the source; every other map is
  -- rebuilt
  | map m ih =>
    obtain ⟨-, hentries⟩ := everywhere_map.mp hwell
    rcases TypedMap.encode_eq_ok h with ⟨hjson, rfl⟩ | ⟨out, hout, rfl⟩
    · exact .passed hjson (hpassed m hjson (.self _))
    · obtain ⟨hty, hcontents⟩ := TypedMap.isJsonBut_of_rebuild (fun e he depth w =>
        ih e he (hentries e he) fun m hm hinside => hpassed m hm (.entry he hinside)) hout
      exact .map hty hcontents

/-! ## Entry points -/

/-- What is inside a container is pure but for objects that the container holds. -/
theorem Value.WellBuilt.isJsonBut_of_encodeEntry {v x : Value} (hwell : v.WellBuilt)
    (hx : x ∈ v.contents) {w : Value} (h : x.encodeEntry .json depth = .ok w) :
    w.IsJsonBut v.HoldsObject := by
  have hcontents : x.WellBuilt := (everywhere_iff_contents.mp hwell).2 x hx
  exact Value.isJsonBut_of_encodeEntry hcontents (fun m hm hinside => ⟨hm, x, hx, hinside⟩) h

/-- Where the objects that are passed on are pure, so is what they are passed on to. -/
theorem Value.IsJsonOf.of_contents {w v : Value} (hself : w.IsJsonPart)
    (h : ∀ x ∈ w.contents, x.IsJsonBut v.HoldsObject) : w.IsJsonOf v where
  self := hself
  contents := h
  pure hpure := everywhere_iff_contents.mpr ⟨hself, fun x hx => (h x hx).isPureJson hpure⟩

/-- **Conversion gives JSON**, but for the JSON objects inside its source, which it passes on. Where
these are pure, the result is pure at every depth. -/
theorem encode_isJson (depth : Depth) :
    (∀ a out : TypedArray, (Value.array a).WellBuilt → a.encode depth = .ok out →
      (Value.array out).IsJsonOf (.array a)) ∧
    (∀ m out : TypedMap, (Value.map m).WellBuilt → m.rebuild .json depth = .ok out →
      (Value.map out).IsJsonOf (.map m)) ∧
    ∀ (v : Value) (out : TypedMap), v.WellBuilt → v.encodeRecord depth = .ok out →
      (Value.map out).IsJsonOf v := by
  have hrebuild (m out : TypedMap) (hwell : (Value.map m).WellBuilt)
      (h : m.rebuild .json depth = .ok out) : (Value.map out).IsJsonOf (.map m) := by
    obtain ⟨hty, hentries⟩ := TypedMap.isJsonBut_of_rebuild (fun e he inner w =>
      hwell.isJsonBut_of_encodeEntry (List.mem_map_of_mem he)) h
    exact .of_contents hty (List.forall_mem_map.mpr hentries)
  refine ⟨fun a out hwell h => ?_, hrebuild, fun v out hwell h => ?_⟩
  · obtain ⟨hty, hitems⟩ := TypedArray.isJsonBut_of_encode hwell.self (fun v hv inner w =>
      hwell.isJsonBut_of_encodeEntry hv) h
    exact .of_contents hty hitems
  · obtain ⟨m, rfl, hm⟩ := Value.encodeRecord_eq_ok h
    exact hrebuild m out hwell hm

/-- A letter with a column of page numbers and with two enclosures: a frozen map and `object`. -/
def Value.letter (object : TypedMap) : Value :=
  .map ⟨.openMap, [("pages", .array ⟨.int, .packed (.ints [1, 2]), false⟩),
    ("enclosed", .array (.ofBoxed .any [.map ⟨.mapOf .string, [("to", .string "me")], true⟩,
      .map object]))], false⟩

/-- The letter as a JSON object. -/
def TypedMap.letter (object : TypedMap) : TypedMap :=
  ⟨.json, [("pages", .array (.ofBoxed .json [.int 1, .int 2])),
    ("enclosed", .array (.ofBoxed .json [.map ⟨.json, [("to", .string "me")], false⟩,
      .map object]))], false⟩

theorem Value.wellBuilt_letter {object : TypedMap} (h : (Value.map object).WellBuilt) :
    (Value.letter object).WellBuilt := by
  have henclosed (vs : List Value) : (⟨.any, .boxed vs, false⟩ : TypedArray).WellKept :=
    ⟨trivial, fun _ _ => rfl, fun _ _ => trivial⟩
  have haddress : (⟨.mapOf .string, [("to", .string "me")], true⟩ : TypedMap).rejection? "to"
      (.string "me") = none := rfl
  have hopen : (Value.letter object).WellKept := fun _ _ => rfl
  refine everywhere_map.mpr ⟨hopen, ?_⟩
  simpa [WellBuilt, TypedArray.ofBoxed, TypedArray.toList, Storage.toList, Column.toScalars,
    WellKept, TypedArray.wellKept_ints, henclosed, haddress] using h

/-- An object with nothing but a null in it. -/
def TypedMap.blank : TypedMap := ⟨.json, [("ps", .null)], false⟩

theorem encode_isJson_letter :
    (Value.letter .blank).encodeRecord (.root 3) = .ok (.letter .blank) ∧
      (Value.map (.letter .blank)).IsPureJson := by
  have hencode : (Value.letter .blank).encodeRecord (.root 3) = .ok (.letter .blank) := rfl
  have hblank : (Value.map .blank).WellBuilt := by
    simp [Value.WellBuilt, TypedMap.blank, Value.WellKept]
    decide
  obtain ⟨-, -, hrecord⟩ := encode_isJson (.root 3)
  refine ⟨hencode, (hrecord _ _ (Value.wellBuilt_letter hblank) hencode).pure ?_⟩
  -- the letter holds one object
  have hobjects : (Value.letter .blank).Everywhere fun w =>
      ∀ m, w = .map m → m.ty = .json → (Value.map m).IsPureJson := by
    simp [Value.letter, TypedArray.toList, TypedArray.ofBoxed, Storage.toList, Column.toScalars,
      Value.IsPureJson, TypedMap.blank, Value.IsJsonPart]
  rintro m ⟨hm, x, hx, hinside⟩
  exact (Value.everywhere_iff_contents.mp hobjects).2 x hx _ hinside m rfl hm

/-- An object with an array of integers and with a byte in it. -/
def TypedMap.draft : TypedMap :=
  ⟨.json, [("n", .array ⟨.int, .packed (.ints [1]), false⟩), ("b", .byte 7)], false⟩

/-- The array of integers and the byte in an object are passed on with it. -/
theorem encode_not_pure :
    ¬ ((∀ (depth : Depth) (a out : TypedArray), (Value.array a).WellBuilt →
        a.encode depth = .ok out → (Value.array out).IsPureJson) ∧
      (∀ (depth : Depth) (m out : TypedMap), (Value.map m).WellBuilt →
        m.rebuild .json depth = .ok out → (Value.map out).IsPureJson) ∧
      ∀ (depth : Depth) (v : Value) (out : TypedMap), v.WellBuilt →
        v.encodeRecord depth = .ok out → (Value.map out).IsPureJson) := by
  rintro ⟨-, -, hrecord⟩
  have hinner : (Value.map .draft).WellKept := by
    show ∀ e ∈ TypedMap.draft.entries, _
    decide
  have houter : (Value.map ⟨.openMap, [("inner", .map .draft)], false⟩).WellKept := fun _ _ => rfl
  have hwell : (Value.map ⟨.openMap, [("inner", .map .draft)], false⟩).WellBuilt := by
    refine Value.everywhere_map.mpr ⟨houter, List.forall_mem_singleton.mpr ?_⟩
    refine Value.everywhere_map.mpr ⟨hinner, ?_⟩
    simp [TypedMap.draft, TypedArray.toList, Storage.toList, Column.toScalars, Value.WellKept,
      TypedArray.wellKept_ints]
  have hpure := hrecord (.root 8) _ ⟨.json, [("inner", .map .draft)], false⟩ hwell rfl
  -- the byte sits two levels down, in the JSON object that was passed on
  have hbyte : (Value.byte 7).IsJsonPart :=
    hpure _ (.entry List.mem_cons_self (.entry (.tail _ (.head _)) (.self _)))
  cases hbyte

end TypedJson
