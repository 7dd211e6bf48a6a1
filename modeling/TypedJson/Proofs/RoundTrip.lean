import TypedJson.Proofs.Documents
import TypedJson.Proofs.Standard

/-!
# TypedJson — the round trip

A document that fits a record type exactly goes through the record and back without loss: both
conversions succeed, and what comes out equals what went in, with the keys of each record in the
order of declaration.

* **`Ty.IsLossless`** — the types for which this holds;
* **`Ty.Matches`** — a document fits a type exactly, up to an order of keys;
* **`Ty.IsLossless.roundTrips`** — both directions for one value, of any lossless type;
* **`RecordTy.roundTrip`** — both directions for a whole record.

Each container changes its declared type twice on the way, so what has to be seen at each level is
that every write is accepted, that scalars inside arrays may pass, and that the limit allows the
next container.
-/

namespace TypedJson

/-- The types whose exact matches are converted without loss: scalars of JSON, `json`, and what is
built from them. Fields have zeros as defaults. Other keys may be allowed, but there are none in an
exact match. -/
inductive Ty.IsLossless : Ty → Prop
  | int : IsLossless .int
  | float : IsLossless .float
  | boolean : IsLossless .boolean
  | string : IsLossless .string
  | json : IsLossless .json
  | optional {t : Ty} (h : IsLossless t) : IsLossless t.optional
  | array {t : Ty} (h : IsLossless t) : IsLossless (.array t)
  | openMap : IsLossless .openMap
  | mapOf {t : Ty} (h : IsLossless t) : IsLossless (.mapOf t)
  | record {r : RecordTy} (hdistinct : Entries.Distinct r.fields)
    (hdefaults : ∀ f ∈ r.fields, f.2.default = f.2.ty.zero)
    (hfields : ∀ f ∈ r.fields, IsLossless f.2.ty) (hrest : ∀ t, r.rest = some t → t.IsStandard) :
    IsLossless (.record r)

/-- The value fits the type exactly. In a record, the keys that are there and the declared ones are
related by `order`. -/
inductive Ty.Matches (order : List String → List String → Prop) : Ty → Value → Prop
  | int (i : Int64) : Matches order .int (.int i)
  | float (x : Binary64) : Matches order .float (.float x)
  | boolean (b : Bool) : Matches order .boolean (.boolean b)
  | string (s : String) : Matches order .string (.string s)
  | json (v : Value) : Matches order .json v
  | optionalNull (t : Ty) : Matches order t.optional .null
  | optional {t : Ty} {v : Value} (h : Matches order t v) : Matches order t.optional v
  | array {t : Ty} {a : TypedArray} (h : ∀ v ∈ a.toList, Matches order t v) :
    Matches order (.array t) (.array a)
  | openMap (m : TypedMap) : Matches order .openMap (.map m)
  | mapOf {t : Ty} {m : TypedMap} (h : ∀ e ∈ m.entries, Matches order t e.2) :
    Matches order (.mapOf t) (.map m)
  | record {r : RecordTy} {m : TypedMap} (hkeys : order m.keys (Entries.keys r.fields))
    (h : ∀ f ∈ r.fields, ∀ v, m.get? f.1 = some v → Matches order f.2.ty v) :
    Matches order (.record r) (.map m)

/-- A document that matches the type is converted to it and back, to an equal one that matches with
keys in the order of declaration. If a scalar is on the way, it is one that arrays of the type let
pass. -/
def Ty.RoundTrips (t : Ty) : Prop :=
  ∀ v depth, v.IsDocument → t.Matches List.Perm v → depth.HasRoom v.nesting →
    ∃ x w, t.decode depth v = .ok x ∧ x.encodeEntry .json depth = .ok w ∧ w.numEq v = true ∧
      t.Matches Eq w ∧ ∀ s, x = .scalar s → t.isJsonCompatible = true

namespace Ty.IsLossless

theorem isStandard {t : Ty} (h : t.IsLossless) : t.IsStandard := by
  induction h with
  | int => exact everywhere_scalar.mpr trivial
  | float => exact everywhere_scalar.mpr trivial
  | boolean => exact everywhere_scalar.mpr trivial
  | string => exact everywhere_scalar.mpr trivial
  | json => exact everywhere_json.mpr trivial
  | optional _ ih =>
    refine everywhere_union.mpr ⟨?_, fun t ht => ?_⟩
    · simp [IsStandardPart, isNull]
    · rcases List.mem_pair.mp ht with rfl | rfl
      · exact ih
      · exact everywhere_null.mpr trivial
  | array _ ih => exact everywhere_array.mpr ⟨trivial, ih⟩
  | openMap => exact everywhere_openMap.mpr trivial
  | mapOf _ ih => exact everywhere_mapOf.mpr ⟨trivial, ih⟩
  | record hdistinct hdefaults _ hrest ih =>
    exact everywhere_record.mpr ⟨⟨hdistinct, hdefaults⟩, ih, hrest⟩

/-- The null type is not lossless on its own, so it can be told apart from what it is an alternative
to. -/
theorem isNull_eq_false {t : Ty} (h : t.IsLossless) : t.isNull = false := by
  cases h <;> rfl

end Ty.IsLossless

namespace Ty.RoundTrips

/-- A scalar of the very type comes out of both conversions as it went in. -/
theorem scalar {k : ScalarKind} (hjson : k.isJson = true)
    (hmatches : ∀ v, (Ty.scalar k).Matches List.Perm v → ∃ s, v = .scalar s ∧ s.kind = k ∧
      (Ty.scalar k).Matches Eq (.scalar s)) : (Ty.scalar k).RoundTrips := by
  intro v depth hv hmatch _
  obtain ⟨s, rfl, rfl, hresult⟩ := hmatches v hmatch
  have hencode : (Value.scalar s).encodeEntry .json depth = .ok (.scalar s) :=
    Scalar.encode_eq_ok_iff.mpr ⟨⟨rfl, hjson⟩, rfl⟩
  exact ⟨.scalar s, .scalar s, ScalarKind.decode_self hjson depth, hencode, hv.numEq_self, hresult,
    fun _ _ => rfl⟩

theorem int : Ty.int.RoundTrips := by
  refine scalar rfl fun v h => ?_
  cases h with
  | int i => exact ⟨.int i, rfl, rfl, .int i⟩

theorem float : Ty.float.RoundTrips := by
  refine scalar rfl fun v h => ?_
  cases h with
  | float x => exact ⟨.float x, rfl, rfl, .float x⟩

theorem boolean : Ty.boolean.RoundTrips := by
  refine scalar rfl fun v h => ?_
  cases h with
  | boolean b => exact ⟨.boolean b, rfl, rfl, .boolean b⟩

theorem string : Ty.string.RoundTrips := by
  refine scalar rfl fun v h => ?_
  cases h with
  | string s => exact ⟨.string s, rfl, rfl, .string s⟩

/-- At the type `json` a document is taken as it is and encoded from there. -/
theorem json : Ty.json.RoundTrips := by
  intro v depth hv _ hroom
  obtain ⟨w, hencode⟩ := hv.exists_encodeEntry hroom
  exact ⟨v, w, if_pos hv.admits_json, hencode, hv.numEq_of_encodeEntry hencode, .json w,
    fun _ _ => rfl⟩

/-- An optional value is null on both ways, or it goes the way of its type. -/
theorem optional {t : Ty} (hnot : t.isNull = false) (ih : t.RoundTrips) :
    t.optional.RoundTrips := by
  intro v depth hv hmatches hroom
  cases hnull : v.isNull with
  | true =>
    obtain rfl : v = .null := Value.eq_null_of_isNull hnull
    exact ⟨.null, .null, rfl, rfl, rfl, .optionalNull t, fun _ h => nomatch h⟩
  | false =>
    have hmatch : t.Matches List.Perm v := by
      cases hmatches with
      | optionalNull => cases hnull
      | optional h => exact h
    obtain ⟨x, w, hdecode, hencode, hequal, hresult, hscalar⟩ := ih v depth hv hmatch hroom
    have honly : nonNull [t, .null] = [t] := by
      have hmember : Ty.null.isNull = true := rfl
      simp [nonNull, hnot, hmember]
    refine ⟨x, w, ?_, hencode, hequal, .optional hresult, fun s hs => ?_⟩
    · refine decode_union_eq_ok_iff.mpr (.inr ⟨?_, t, honly, hdecode⟩)
      rw [hnull]
      rfl
    · refine isJsonCompatible_union_iff.mpr fun u hu => ?_
      rcases List.mem_pair.mp hu with rfl | rfl
      · exact hscalar s hs
      · rfl

/-- An array is converted element by element and encoded element by element, so it round-trips as
its elements do. -/
theorem array {t : Ty} (hstandard : t.IsStandard) (ih : t.RoundTrips) :
    (Ty.array t).RoundTrips := by
  intro v depth hv hmatches hroom
  cases hmatches with
  | array hitemsMatch =>
    rename_i a
    obtain ⟨helement, hitems⟩ := Value.everywhere_array.mp hv
    obtain ⟨inner, henter, hinner⟩ := TypedArray.hasRoom_iff.mp hroom
    have hthere : ∀ v ∈ a.toList, ∃ x, (t.decode inner v = .ok x ∧ t.admits x = true) ∧
        ∃ w, x.encodeElement t.isJsonCompatible inner = .ok w ∧ w.numEq v = true ∧
          t.Matches Eq w := by
      intro v hmem
      obtain ⟨x, w, hdecode, hencode, hequal, hresult, hscalar⟩ :=
        ih v inner (hitems v hmem) (hitemsMatch v hmem) (hinner v hmem)
      rw [← Value.encodeElement_eq_encodeEntry hscalar] at hencode
      exact ⟨x, ⟨hdecode, hstandard.admits_of_decode hdecode⟩, w, hencode, hequal, hresult⟩
    -- the elements chosen one by one are put together to the list of converted elements
    obtain ⟨xs, hxs⟩ := exists_forall₂ hthere
    have hdecoded : List.Forall₂ (fun v x => t.decode inner v = .ok x ∧ t.admits x = true)
        a.toList xs := hxs.imp fun v x h => h.1
    have hback : ∃ ws,
        List.Forall₂ (fun x w => x.encodeElement t.isJsonCompatible inner = .ok w) xs ws ∧
        List.Forall₂ (fun w v => w.numEq v = true ∧ t.Matches Eq w) ws a.toList :=
      exists_forall₂_of_forall₂ hxs fun v _ x _ h => h.2
    obtain ⟨ws, hencoded, hresult⟩ := hback
    obtain ⟨out, hout, hbuilding, rfl⟩ := TypedArray.exists_decode henter hdecoded
    have helementType : out.elementType = t := hbuilding.elementType
    -- the loop of the encoding is known for elements that the element type admits in normal form,
    -- as converted ones are
    have hencode : out.encode depth = .ok (.ofBoxed .json ws) := by
      rw [← helementType] at hencoded hdecoded
      refine (TypedArray.encode_eq_ok_iff (fun x hx => ?_) (fun x hx => ?_)).mpr
        ⟨inner, henter, ws, hencoded, rfl⟩
      · obtain ⟨v, -, -, hadmits⟩ := exists_left_of_mem hdecoded hx
        exact hadmits
      · obtain ⟨v, -, hdecode, -⟩ := exists_left_of_mem hdecoded hx
        exact normalize_of_decode hdecode
    have hequal : (TypedArray.ofBoxed .json ws).numEq a = true := by
      refine TypedArray.numEq_iff.mpr ⟨?_, hresult.imp fun w v h => h.1⟩
      rw [show a.elementType = .json from helement]
      rfl
    have hmatch : (Ty.array t).Matches Eq (.array (.ofBoxed .json ws)) := by
      refine .array fun w hw => ?_
      obtain ⟨v, -, -, hitem⟩ := exists_right_of_mem hresult hw
      exact hitem
    exact ⟨.array out, .array (.ofBoxed .json ws), map_eq_ok_iff.mpr ⟨out, hout, rfl⟩,
      map_eq_ok_iff.mpr ⟨_, hencode, rfl⟩, hequal, hmatch, fun _ h => nomatch h⟩

/-- A map or a record comes out equal to a document with as many entries, if each of its values
comes out equal to what the document has under that key. -/
theorem encode_entries {m : TypedMap} (out : TypedMap) {depth inner : Depth}
    (hm : (Value.map m).IsDocument) (henter : depth.enter = .ok inner)
    (hmapping : out.ty.isMapping = true) (hjson : out.ty.isJson = false)
    (hdistinct : Entries.Distinct out.entries)
    (hlength : out.entries.length = m.entries.length) {P : String → Value → Prop}
    (hvalues : ∀ e ∈ out.entries, ∃ v w, m.get? e.1 = some v ∧
      e.2.encodeEntry .json inner = .ok w ∧ w.numEq v = true ∧ P e.1 w) :
    ∃ w, (Value.map out).encodeEntry .json depth = .ok (.map w) ∧
      (Value.map w).numEq (.map m) = true ∧ w.keys = out.keys ∧ ∀ e ∈ w.entries, P e.1 e.2 := by
  have hthere : ∀ e ∈ out.entries, ∃ e' : String × Value,
      (e'.1 = e.1 ∧ e.2.encodeEntry .json inner = .ok e'.2) ∧
      (∃ v, m.entries.lookup e'.1 = some v ∧ e'.2.numEq v = true) ∧ P e'.1 e'.2 := by
    intro e he
    obtain ⟨v, w, hget, hencode, hequal, hP⟩ := hvalues e he
    exact ⟨(e.1, w), ⟨rfl, hencode⟩, ⟨v, hget, hequal⟩, hP⟩
  obtain ⟨es, hes⟩ := exists_forall₂ hthere
  have hencoded : List.Forall₂ (fun e e' => e'.1 = e.1 ∧ e.2.encodeEntry .json inner = .ok e'.2)
      out.entries es := hes.imp fun _ _ h => h.1
  have hencode : (Value.map out).encodeEntry .json depth = .ok (.map ⟨.json, es, false⟩) :=
    (TypedMap.encodeEntry_eq_ok_iff hmapping hjson hdistinct).mpr
      ⟨inner, henter, es, hencoded, rfl⟩
  -- maps are compared by lookup: the entry encoded under a key meets the one of the document
  have hequal : TypedMap.numEq ⟨.json, es, false⟩ m = true := by
    refine TypedMap.numEq_iff.mpr ⟨?_, hes.length_eq.symm.trans hlength, fun e he => ?_⟩
    · rw [hm.self.1]
      rfl
    · obtain ⟨-, -, -, hvalue, -⟩ := exists_left_of_mem hes he
      exact hvalue
  have hkeys : Entries.keys es = out.keys :=
    Entries.keys_eq_of_forall₂ hencoded fun _ _ h => h.1
  have hP : ∀ e ∈ es, P e.1 e.2 := by
    intro e he
    obtain ⟨-, -, -, -, hvalue⟩ := exists_left_of_mem hes he
    exact hvalue
  exact ⟨⟨.json, es, false⟩, hencode, hequal, hkeys, hP⟩

/-- A map round trips as its values do, of whatever type the constraint makes them. -/
theorem map_entries (constraint : Option Ty) {m : TypedMap} {depth inner : Depth}
    (hm : (Value.map m).IsDocument) (henter : depth.enter = .ok inner) {P : Value → Prop}
    (hvalues : ∀ e ∈ m.entries, ∃ x w, (ofConstraint constraint).decode inner e.2 = .ok x ∧
      (ofConstraint constraint).admits x = true ∧ x.encodeEntry .json inner = .ok w ∧
      w.numEq e.2 = true ∧ P w) :
    ∃ x w, (Ty.map constraint).decode depth (.map m) = .ok (.map x) ∧
      (Value.map x).encodeEntry .json depth = .ok (.map w) ∧
      (Value.map w).numEq (.map m) = true ∧ ∀ e ∈ w.entries, P e.2 := by
  have hdistinct : Entries.Distinct m.entries := hm.self.2
  have hthere : ∀ e ∈ m.entries, ∃ e' : String × Value, (e'.1 = e.1 ∧
      (ofConstraint constraint).decode inner e.2 = .ok e'.2 ∧
      (ofConstraint constraint).admits e'.2 = true) ∧
      ∃ v w, m.get? e'.1 = some v ∧ e'.2.encodeEntry .json inner = .ok w ∧ w.numEq v = true ∧
        P w := by
    intro e he
    obtain ⟨x, w, hdecode, hadmits, hencode, hequal, hP⟩ := hvalues e he
    exact ⟨(e.1, x), ⟨rfl, hdecode, hadmits⟩, e.2, w, hdistinct.lookup_eq_some he, hencode, hequal,
      hP⟩
  obtain ⟨es, hes⟩ := exists_forall₂ hthere
  have hdecode : TypedMap.decode constraint depth (.map m) = .ok ⟨.map constraint, es, false⟩ :=
    (TypedMap.decode_eq_ok_iff hm.asObject? hdistinct).mpr
      ⟨inner, henter, es, hes.imp fun _ _ h => h.1, rfl⟩
  -- the converted map has the keys of the document, so its encoding overwrites nothing
  have hdistinct' : Entries.Distinct es := hdistinct.of_forall₂ hes fun _ _ h => h.1.1
  have hback : ∀ e ∈ es, ∃ v w, m.get? e.1 = some v ∧ e.2.encodeEntry .json inner = .ok w ∧
      w.numEq v = true ∧ P w := by
    intro e he
    obtain ⟨-, -, -, hvalue⟩ := exists_left_of_mem hes he
    exact hvalue
  obtain ⟨w, hencode, hequal, -, hP⟩ := encode_entries ⟨.map constraint, es, false⟩
    (P := fun _ => P) hm henter rfl rfl hdistinct' hes.length_eq.symm hback
  exact ⟨_, w, map_eq_ok_iff.mpr ⟨_, hdecode, rfl⟩, hencode, hequal, hP⟩

theorem openMap : Ty.openMap.RoundTrips := by
  intro v depth hv hmatches hroom
  cases hmatches with
  | openMap m =>
    obtain ⟨-, hentries⟩ := Value.everywhere_map.mp hv
    obtain ⟨inner, henter, hinner⟩ := TypedMap.hasRoom_iff.mp hroom
    have hvalues : ∀ e ∈ m.entries, ∃ x w, Ty.any.decode inner e.2 = .ok x ∧
        Ty.any.admits x = true ∧ x.encodeEntry .json inner = .ok w ∧ w.numEq e.2 = true ∧ True := by
      intro e he
      have hvalue : e.2.IsDocument := hentries e he
      obtain ⟨w, hencode⟩ := hvalue.exists_encodeEntry (hinner e he)
      exact ⟨e.2, w, rfl, rfl, hencode, hvalue.numEq_of_encodeEntry hencode, trivial⟩
    obtain ⟨x, w, hdecode, hencode, hequal, -⟩ := map_entries none hv henter hvalues
    exact ⟨.map x, .map w, hdecode, hencode, hequal, .openMap w, fun _ h => nomatch h⟩

theorem mapOf {t : Ty} (hstandard : t.IsStandard) (ih : t.RoundTrips) :
    (Ty.mapOf t).RoundTrips := by
  intro v depth hv hmatches hroom
  cases hmatches with
  | mapOf hentriesMatch =>
    rename_i m
    obtain ⟨-, hentries⟩ := Value.everywhere_map.mp hv
    obtain ⟨inner, henter, hinner⟩ := TypedMap.hasRoom_iff.mp hroom
    have hvalues : ∀ e ∈ m.entries, ∃ x w, t.decode inner e.2 = .ok x ∧ t.admits x = true ∧
        x.encodeEntry .json inner = .ok w ∧ w.numEq e.2 = true ∧ t.Matches Eq w := by
      intro e he
      obtain ⟨x, w, hdecode, hencode, hequal, hresult, -⟩ :=
        ih e.2 inner (hentries e he) (hentriesMatch e he) (hinner e he)
      exact ⟨x, w, hdecode, hstandard.admits_of_decode hdecode, hencode, hequal, hresult⟩
    obtain ⟨x, w, hdecode, hencode, hequal, hresult⟩ := map_entries (some t) hv henter hvalues
    exact ⟨.map x, .map w, hdecode, hencode, hequal, .mapOf hresult, fun _ h => nomatch h⟩

/-- A field round trips if its key is there in the document. -/
theorem field {f : String × Field} {m : TypedMap} {inner : Depth} (hm : (Value.map m).IsDocument)
    (hkey : f.1 ∈ m.keys) (hroom : ∀ e ∈ m.entries, inner.HasRoom e.2.nesting)
    (hmatches : ∀ v, m.get? f.1 = some v → f.2.ty.Matches List.Perm v)
    (hstandard : f.2.ty.IsStandard) (ih : f.2.ty.RoundTrips) :
    ∃ x v w, (f.2.decode inner (m.get? f.1) = .ok x ∧ f.2.ty.admits x = true) ∧
      m.get? f.1 = some v ∧ x.encodeEntry .json inner = .ok w ∧ w.numEq v = true ∧
      f.2.ty.Matches Eq w := by
  obtain ⟨⟨-, hdistinct⟩, hentries⟩ := Value.everywhere_map.mp hm
  obtain ⟨e, he, heq⟩ := List.mem_map.mp hkey
  have hget : m.get? f.1 = some e.2 := heq ▸ hdistinct.lookup_eq_some he
  obtain ⟨x, w, hdecode, hencode, hequal, hresult, -⟩ :=
    ih e.2 inner (hentries e he) (hmatches e.2 hget) (hroom e he)
  refine ⟨x, e.2, w, ⟨?_, hstandard.admits_of_decode hdecode⟩, hget, hencode, hequal, hresult⟩
  rw [hget, Field.decode_some]
  exact hdecode

/-- A record round-trips as its fields do, with its keys in declaration order, whatever their
order in the document. -/
theorem record {r : RecordTy} (hdistinct : Entries.Distinct r.fields)
    (hstandard : ∀ f ∈ r.fields, f.2.ty.IsStandard) (ih : ∀ f ∈ r.fields, f.2.ty.RoundTrips) :
    (Ty.record r).RoundTrips := by
  intro v depth hv hmatches hroom
  cases hmatches with
  | record hkeys hfieldsMatch =>
    rename_i m
    obtain ⟨inner, henter, hinner⟩ := TypedMap.hasRoom_iff.mp hroom
    have hthere : ∀ f ∈ r.fields, ∃ e : String × Value, (e.1 = f.1 ∧
        f.2.decode inner (m.get? f.1) = .ok e.2 ∧ f.2.ty.admits e.2 = true) ∧
        ∃ v w, m.get? e.1 = some v ∧ e.2.encodeEntry .json inner = .ok w ∧ w.numEq v = true ∧
          f.2.ty.Matches Eq w := by
      intro f hf
      have hkey : f.1 ∈ m.keys := hkeys.mem_iff.mpr (List.mem_map_of_mem hf)
      obtain ⟨x, v, w, hdecode, hback⟩ :=
        field hv hkey hinner (hfieldsMatch f hf) (hstandard f hf) (ih f hf)
      exact ⟨(f.1, x), ⟨rfl, hdecode⟩, v, w, hback⟩
    obtain ⟨es, hes⟩ := exists_forall₂ hthere
    have hdecode : r.decode depth (.map m) = .ok ⟨.record r, es, false⟩ :=
      (RecordTy.decode_eq_ok_iff hv.asObject? hdistinct).mpr
        ⟨inner, henter, es, hes.imp fun _ _ h => h.1, rfl⟩
    have hkeysOut : Entries.keys es = Entries.keys r.fields :=
      Entries.keys_eq_of_forall₂ hes fun _ _ h => h.1.1
    have hdistinctOut : Entries.Distinct es := hdistinct.of_forall₂ hes fun _ _ h => h.1.1
    -- no key of the document is left over: there are as many as declared fields
    have hlength : es.length = m.entries.length := by
      have hcount : m.entries.length = r.fields.length := by
        simpa [TypedMap.keys, Entries.keys] using hkeys.length_eq
      rw [hcount, hes.length_eq]
    have hback : ∀ e ∈ es, ∃ v w, m.get? e.1 = some v ∧ e.2.encodeEntry .json inner = .ok w ∧
        w.numEq v = true ∧ ∀ field, r.field? e.1 = some field → field.ty.Matches Eq w := by
      intro e he
      obtain ⟨f, hf, ⟨hkey, -⟩, v, w, hget, hencode, hequal, hresult⟩ := exists_left_of_mem hes he
      refine ⟨v, w, hget, hencode, hequal, fun field hfield => ?_⟩
      -- field names are distinct, so the field found under the key is the one converted
      have hdeclared : r.field? e.1 = some f.2 := hkey ▸ hdistinct.lookup_eq_some hf
      cases hdeclared.symm.trans hfield
      exact hresult
    obtain ⟨w, hencode, hequal, hkeysEncoded, hresult⟩ := encode_entries ⟨.record r, es, false⟩
      (P := fun key w => ∀ field, r.field? key = some field → field.ty.Matches Eq w) hv henter rfl
      rfl hdistinctOut hlength hback
    have hmatch : (Ty.record r).Matches Eq (.map w) := by
      refine .record (hkeysEncoded.trans hkeysOut) fun f hf v hget => ?_
      exact hresult (f.1, v) (Entries.mem_of_lookup hget) f.2 (hdistinct.lookup_eq_some hf)
    exact ⟨.map ⟨.record r, es, false⟩, .map w, map_eq_ok_iff.mpr ⟨_, hdecode, rfl⟩, hencode,
      hequal, hmatch, fun _ h => by cases h⟩

end Ty.RoundTrips

/-- **Documents that match a lossless type go through it and back.** -/
theorem Ty.IsLossless.roundTrips {t : Ty} (h : t.IsLossless) : t.RoundTrips := by
  -- on why the type is lossless, one lemma for each case
  induction h with
  | int => exact .int
  | float => exact .float
  | boolean => exact .boolean
  | string => exact .string
  | json => exact .json
  | optional h ih => exact .optional h.isNull_eq_false ih
  | array h ih => exact .array h.isStandard ih
  | openMap => exact .openMap
  | mapOf h ih => exact .mapOf h.isStandard ih
  | record hdistinct _ hfields _ ih =>
    exact .record hdistinct (fun f hf => (hfields f hf).isStandard) ih

/-- **A document that matches a record type exactly makes the round trip**: it is converted to the
record and back, under any limit that its nesting is within. What comes out is equal to it and
matches the type with all keys in the order of declaration. -/
theorem RecordTy.roundTrip {r : RecordTy} (hlossless : (Ty.record r).IsLossless) {j : Json}
    (hkeyed : j.toValue.Keyed) (hmatches : (Ty.record r).Matches List.Perm j.toValue) {limit : Nat}
    (hlimit : j.toValue.nesting ≤ limit) :
    ∃ t w, r.decode (.root limit) j.toValue = .ok t ∧
      (Value.map t).encodeRecord (.root limit) = .ok w ∧ (Value.map w == j.toValue) = true ∧
      (Ty.record r).Matches Eq (.map w) := by
  have hroom : (Depth.root limit).HasRoom j.toValue.nesting := by
    show 0 + j.toValue.nesting ≤ limit
    omega
  obtain ⟨x, y, hdecode, hencode, hequal, hresult, -⟩ :=
    hlossless.roundTrips _ _ (j.isDocument_toValue hkeyed) hmatches hroom
  obtain ⟨t, ht, rfl⟩ := map_eq_ok_iff.mp hdecode
  have htype : t.ty = .record r := (TypedMap.Building.decode_record ht).ty
  cases hresult with
  | record hkeys hfields =>
    rename_i w
    have hrecord : (Value.map t).encodeRecord (.root limit) = .ok w :=
      (TypedMap.encodeRecord_eq_ok_iff (htype ▸ rfl) (htype ▸ rfl)).mpr hencode
    exact ⟨t, w, ht, hrecord, hequal, .record hkeys hfields⟩

/-- A record type inside of another one. -/
def RecordTy.stop : RecordTy where
  name := "Stop"
  fields := [("place", .ofTy .string), ("price", .ofTy .float)]
  rest := none

/-- A record type with containers. -/
def RecordTy.ticket : RecordTy where
  name := "Ticket"
  fields := [("id", .ofTy .int), ("note", .ofTy (.optional .string)),
    ("stops", .ofTy (.array (.record .stop))), ("flags", .ofTy (.mapOf .boolean))]
  rest := none

/-- A stop as a document, with the keys in another order. -/
def Json.stop : Json :=
  .object [("price", .number (.float ⟨0x3fe0000000000000⟩ (by decide))), ("place", .string "Kandy")]

/-- A ticket as a document, with the keys in another order. -/
def Json.ticket : Json :=
  .object [("stops", .array [.stop]), ("flags", .object [("return", .bool true)]),
    ("id", .number (.ofInt64 9)), ("note", .null)]

/-- A ticket with stops, flags and no note. -/
theorem RecordTy.roundTrip_ticket :
    ∃ t w, RecordTy.ticket.decode (.root 3) Json.ticket.toValue = .ok t ∧
      (Value.map t).encodeRecord (.root 3) = .ok w ∧ (Value.map w == Json.ticket.toValue) = true ∧
      (Ty.record .ticket).Matches Eq (.map w) := by
  have hstop : (Ty.record .stop).IsLossless := by
    refine .record ?_ ?_ ?_ (by simp [stop])
    · simp [stop, Entries.Distinct, Entries.keys]
    · simp [stop, Field.ofTy]
    · simpa [stop, Field.ofTy] using ⟨.string, .float⟩
  have hlossless : (Ty.record .ticket).IsLossless := by
    refine .record ?_ ?_ ?_ (by simp [ticket])
    · simp [ticket, Entries.Distinct, Entries.keys]
    · simp [ticket, Field.ofTy]
    · simpa [ticket, Field.ofTy] using ⟨.int, .optional .string, .array hstop, .mapOf .boolean⟩
  have hkeyed : Json.ticket.toValue.Keyed := by
    simp [Value.Keyed, Json.ticket, Json.stop, Json.toValue, Json.toValues, Json.toEntries,
      Part.HasDistinctKeys, Entries.Distinct, Entries.keys]
  have hmatchesStop : (Ty.record .stop).Matches List.Perm Json.stop.toValue := by
    refine .record (by decide) ?_
    simpa [stop, Field.ofTy, TypedMap.get?, Json.toEntries, Json.toValue, Entries.lookup_cons] using
      ⟨.string "Kandy", .float _⟩
  have hmatches : (Ty.record .ticket).Matches List.Perm Json.ticket.toValue := by
    have hstops : (Ty.array (.record .stop)).Matches List.Perm
        (.array (.ofBoxed .json [Json.stop.toValue])) := .array (by simpa using hmatchesStop)
    have hflags : (Ty.mapOf .boolean).Matches List.Perm
        (.map ⟨.json, [("return", .boolean true)], false⟩) := .mapOf (by simpa using .boolean true)
    refine .record (by decide) ?_
    simpa [ticket, Field.ofTy, TypedMap.get?, Json.toEntries, Json.toValues, Json.toValue,
      Entries.lookup_cons] using ⟨.int 9, .optionalNull .string, hstops, hflags⟩
  exact roundTrip hlossless hkeyed hmatches (by decide)

end TypedJson
