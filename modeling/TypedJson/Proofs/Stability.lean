import TypedJson.Proofs.Documents
import TypedJson.Proofs.Standard

/-!
# TypedJson — converting twice

A document converted to a record and back to JSON is in general not the document any more: keys that
are not declared are gone, absent fields have their defaults, and scalars may have changed their
type. But all of that happens the first time. A second round starts from what the first has left and
gives an equal record.

* **`Ty.Yields`** — what a conversion puts where a type is expected, be it converted or a zero;
* **`Ty.takesBack`** — converted to JSON, such a value can be converted again, under the same limit,
  and gives an equal value;
* **`RecordTy.decode_encode_decode`** — so it is for whole records.

The two directions are organised differently: to JSON the values direct, from JSON the type does.
The induction is on the type, and each of its cases says what the values of the type look like in
JSON.
-/

namespace TypedJson

/-! ## What conversions yield -/

/-- In the type, a union without null among its members has one member only. -/
def Ty.IsDecided (t : Ty) : Prop :=
  t.Everywhere fun s => match s with
    | .union members _ => members.any isNull = false → ∃ only, members = [only]
    | _ => True

/-- What a conversion of a document puts where the type is expected: what was there, converted, or
the zero of the type where nothing was there. -/
def Ty.Yields (t : Ty) (x : Value) : Prop :=
  (∃ depth v, v.IsDocument ∧ t.decode depth v = .ok x) ∨ x = t.zero

/-- A scalar that is converted from a document is no NaN. -/
theorem ScalarKind.isNumber_of_decode {k : ScalarKind} {depth : Depth} {v : Value} {s : Scalar}
    (hv : v.IsDocument) (h : k.decode depth v = .ok (.scalar s)) :
    Part.IsNumber (.value (.scalar s)) := by
  cases s with
  | float x =>
    obtain ⟨s, hs, rfl⟩ := decode_eq_ok h
    cases hs
    -- the floats come from integers and from floats
    cases v with
    | scalar s =>
      cases s with
      | int i =>
        cases h
        exact Binary64.isNaN_ofInt i.toInt
      | float y =>
        cases h
        exact hv.self
      | _ => cases h
    | _ => cases h
  | _ => trivial

/-- What a scalar type yields is a scalar of its kind, and never NaN: documents hold none and
conversions make none. -/
theorem ScalarKind.exists_scalar_of_yields {k : ScalarKind} {x : Value}
    (h : (Ty.scalar k).Yields x) :
    ∃ s, x = .scalar s ∧ s.kind = k ∧ s.numEq s = true := by
  rcases h with ⟨depth, v, hv, hdecode⟩ | rfl
  · obtain ⟨s, rfl, hkind⟩ := decode_eq_ok hdecode
    exact ⟨s, rfl, hkind, Scalar.numEq_self (isNumber_of_decode hv hdecode)⟩
  · refine ⟨.zero k, rfl, ?_, ?_⟩
    · cases k <;> rfl
    · cases k <;> rfl

/-- What `json` yields is the document itself, or `null`. -/
theorem Ty.isDocument_of_yields_json {x : Value} (h : Ty.json.Yields x) : x.IsDocument := by
  rcases h with ⟨depth, v, hv, hdecode⟩ | rfl
  · rw [decode] at hdecode
    split at hdecode <;> cases hdecode
    exact hv
  · exact Value.everywhere_null.mpr trivial

theorem Ty.isDocument_of_yields_any {x : Value} (h : Ty.any.Yields x) : x.IsDocument := by
  rcases h with ⟨depth, v, hv, hdecode⟩ | rfl
  · cases hdecode
    exact hv
  · exact Value.everywhere_null.mpr trivial

/-- A union yields null or what its only member yields. -/
theorem Ty.yields_union {members : List Ty} {nullable : Bool} {x : Value}
    (hflag : nullable = members.any isNull)
    (hdecided : members.any isNull = false → ∃ only, members = [only])
    (h : (Ty.union members nullable).Yields x) :
    nullable = true ∧ x = .null ∨ ∃ only, nonNull members = [only] ∧ only.Yields x := by
  rcases h with ⟨depth, v, hv, hdecode⟩ | rfl
  · rcases decode_union_eq_ok_iff.mp hdecode with ⟨hnull, rfl⟩ | ⟨-, only, honly, hdecode⟩
    · exact .inl ⟨(Bool.and_eq_true_iff.mp hnull).2, rfl⟩
    · exact .inr ⟨only, honly, .inl ⟨depth, v, hv, hdecode⟩⟩
  · rw [zero]
    cases nullable with
    | true => exact .inl ⟨rfl, rfl⟩
    | false =>
      -- without null among them there is just one alternative, and the zero of the union is its
      -- zero
      obtain ⟨only, rfl⟩ := hdecided hflag.symm
      have hnot : only.isNull = false := by simpa using hflag
      refine .inr ⟨only, ?_, .inr rfl⟩
      simp [nonNull, hnot]

/-- What an array type yields is an array of what its element type yields, admitted and in normal
form. -/
theorem Ty.yields_array {element : Ty} {x : Value} (h : (Ty.array element).Yields x) :
    ∃ a : TypedArray, x = .array a ∧ a.elementType = element ∧
      ∀ v ∈ a.toList, element.Yields v ∧ element.admits v = true ∧ element.normalize v = v := by
  rcases h with ⟨depth, v, hv, hdecode⟩ | rfl
  · obtain ⟨out, hout, rfl⟩ := map_eq_ok_iff.mp hdecode
    obtain ⟨source, inner, rfl, -, hbuilding, hitems⟩ := TypedArray.decode_eq_ok hout
    obtain ⟨-, hsource⟩ := Value.everywhere_array.mp hv
    refine ⟨out, rfl, hbuilding.elementType, fun y hy => ?_⟩
    obtain ⟨x, hx, hconvert, hadmits⟩ := exists_left_of_mem hitems hy
    exact ⟨.inl ⟨inner, x, hsource x hx, hconvert⟩, hadmits, normalize_of_decode hconvert⟩
  · exact ⟨.empty element, rfl, rfl, by simp⟩

/-- What a map type yields is a fresh map of what its constraint yields, with distinct keys. -/
theorem Ty.yields_map {constraint : Option Ty} {x : Value} (h : (Ty.map constraint).Yields x) :
    ∃ es, x = .map ⟨.map constraint, es, false⟩ ∧ Entries.Distinct es ∧
      ∀ e ∈ es, (ofConstraint constraint).Yields e.2 := by
  rcases h with ⟨depth, v, hv, hdecode⟩ | rfl
  · obtain ⟨out, hout, rfl⟩ := map_eq_ok_iff.mp hdecode
    replace hout : TypedMap.decode constraint depth v = .ok out := hout
    obtain ⟨source, rfl⟩ : ∃ source, v = .map source := by
      cases v with
      | map source => exact ⟨source, rfl⟩
      | _ => cases constraint <;> cases hout
    obtain ⟨⟨-, hdistinct⟩, hsource⟩ := Value.everywhere_map.mp hv
    obtain ⟨inner, -, es, hes, rfl⟩ :=
      (TypedMap.decode_eq_ok_iff hv.asObject? hdistinct).mp hout
    refine ⟨es, rfl, hdistinct.of_forall₂ hes fun _ _ h => h.1, fun e he => ?_⟩
    obtain ⟨e', he', -, hconvert, -⟩ := exists_left_of_mem hes he
    exact .inl ⟨inner, e'.2, hsource e' he', hconvert⟩
  · exact ⟨[], rfl, List.nodup_nil, List.forall_mem_nil _⟩

/-- What a record yields has one entry for each field, in declaration order: converted, or the
default, which is the zero of its type. -/
theorem RecordTy.yields {r : RecordTy} {x : Value}
    (hdistinct : Entries.Distinct r.fields) (hdefaults : ∀ f ∈ r.fields, f.2.default = f.2.ty.zero)
    (h : (Ty.record r).Yields x) :
    ∃ es, x = .map ⟨.record r, es, false⟩ ∧
      List.Forall₂ (fun f e => e.1 = f.1 ∧ f.2.ty.Yields e.2) r.fields es := by
  rcases h with ⟨depth, v, hv, hdecode⟩ | rfl
  · obtain ⟨out, hout, rfl⟩ := map_eq_ok_iff.mp hdecode
    obtain ⟨source, -, rfl, -⟩ := RecordTy.decode_eq_ok hout
    obtain ⟨-, hsource⟩ := Value.everywhere_map.mp hv
    obtain ⟨inner, -, es, hes, rfl⟩ := (decode_eq_ok_iff hv.asObject? hdistinct).mp hout
    refine ⟨es, rfl, forall₂_imp_of_mem hes fun f hf e _ ⟨hkey, hfield, _⟩ => ⟨hkey, ?_⟩⟩
    cases hget : source.get? f.1 with
    | none =>
      rw [hget, Field.decode_none] at hfield
      exact .inr ((Except.ok.inj hfield).symm.trans (hdefaults f hf))
    | some x =>
      rw [hget, Field.decode_some] at hfield
      exact .inl ⟨inner, x, hsource _ (Entries.mem_of_lookup hget), hfield⟩
  · refine ⟨_, rfl, List.forall₂_map_right_iff.mpr (List.forall₂_same.mpr fun f hf => ⟨rfl, ?_⟩)⟩
    exact .inr (hdefaults f hf)

/-! ## The second round -/

/-- A value that comes out as null was null. -/
theorem Value.eq_null_of_encodeEntry {x : Value} {target : Ty} {depth : Depth}
    (h : x.encodeEntry target depth = .ok .null) : x = .null := by
  cases x with
  | null => rfl
  | scalar s =>
    obtain ⟨-, hnull⟩ := Scalar.encode_eq_ok_iff.mp h
    cases hnull
  | array a =>
    obtain ⟨out, -, hnull⟩ := map_eq_ok_iff.mp h
    cases hnull
  | map m =>
    rcases TypedMap.encode_eq_ok h with ⟨-, hnull⟩ | ⟨out, -, hnull⟩
    · cases hnull
    · cases hnull

/-- What values of the type come out as in JSON can be converted to the type again, and gives equal
values then. -/
def Ty.TakesBack (t : Ty) : Prop :=
  ∀ x w depth, t.Yields x → x.encodeEntry .json depth = .ok w →
    ∃ y, t.decode depth w = .ok y ∧ y.numEq x = true

namespace Ty.TakesBack

/-- A scalar is encoded as it is and converts to itself. -/
theorem scalar (k : ScalarKind) : (Ty.scalar k).TakesBack := by
  intro x w depth hyields hencode
  obtain ⟨s, rfl, rfl, hself⟩ := ScalarKind.exists_scalar_of_yields hyields
  obtain ⟨⟨-, hjson⟩, rfl⟩ := Scalar.encode_eq_ok_iff.mp hencode
  exact ⟨.scalar s, ScalarKind.decode_self hjson depth, hself⟩

/-- A document is taken as it is, and encoding changed nothing that counts for equality. -/
theorem json : Ty.json.TakesBack := by
  intro x w depth hyields hencode
  have hx : x.IsDocument := isDocument_of_yields_json hyields
  have hadmits : Ty.json.admits w = true := Value.admits_json_of_encodeEntry hencode
  exact ⟨w, if_pos hadmits, hx.numEq_of_encodeEntry hencode⟩

theorem any : Ty.any.TakesBack := by
  intro x w depth hyields hencode
  have hx : x.IsDocument := isDocument_of_yields_any hyields
  exact ⟨w, rfl, hx.numEq_of_encodeEntry hencode⟩

theorem null : Ty.null.TakesBack := by
  intro x w depth hyields hencode
  have hx : x = .null := by
    rcases hyields with ⟨_, v, -, hdecode⟩ | hzero
    · rw [decode] at hdecode
      split at hdecode <;> cases hdecode
      rfl
    · exact hzero
  rw [hx] at hencode ⊢
  cases hencode
  exact ⟨.null, rfl, rfl⟩

/-- A union is taken back through its one alternative, or as `null`; that an alternative is not
encoded to `null` tells the two apart. -/
theorem union {members : List Ty} {nullable : Bool} (hflag : nullable = members.any isNull)
    (hdecided : members.any isNull = false → ∃ only, members = [only])
    (ih : ∀ t ∈ members, t.TakesBack) : (Ty.union members nullable).TakesBack := by
  intro x w depth hyields hencode
  rcases yields_union hflag hdecided hyields with ⟨rfl, rfl⟩ | ⟨only, honly, hyields⟩
  · cases hencode
    exact ⟨.null, rfl, rfl⟩
  · cases hnull : w.isNull && nullable with
    | true =>
      -- null came from null
      have hw : w = .null := Value.eq_null_of_isNull (Bool.and_eq_true_iff.mp hnull).1
      rw [hw] at hencode
      rw [Value.eq_null_of_encodeEntry hencode]
      exact ⟨.null, decode_union_eq_ok_iff.mpr (.inl ⟨hnull, rfl⟩), rfl⟩
    | false =>
      obtain ⟨y, hdecode, heq⟩ := ih only (mem_of_nonNull honly) x w depth hyields hencode
      exact ⟨y, decode_union_eq_ok_iff.mpr (.inr ⟨hnull, only, honly, hdecode⟩), heq⟩

/-- An array is taken back element by element. -/
theorem array {element : Ty} (hstandard : element.IsStandard) (ih : element.TakesBack) :
    (Ty.array element).TakesBack := by
  intro x w depth hyields hencode
  obtain ⟨a, rfl, rfl, hitems⟩ := yields_array hyields
  obtain ⟨out, hout, rfl⟩ := map_eq_ok_iff.mp hencode
  -- elements that are admitted and in normal form are encoded one by one
  obtain ⟨inner, henter, ws, hws, rfl⟩ := (TypedArray.encode_eq_ok_iff
    (fun v hv => (hitems v hv).2.1) (fun v hv => (hitems v hv).2.2)).mp hout
  have hback : ∃ ys, List.Forall₂ (fun w y => a.elementType.decode inner w = .ok y ∧
      a.elementType.admits y = true) ws ys ∧
      List.Forall₂ (fun y v => y.numEq v = true) ys a.toList := by
    refine exists_forall₂_of_forall₂ hws fun v hv w _ hw => ?_
    obtain ⟨y, hdecode, heq⟩ :=
      ih v w inner (hitems v hv).1 (Value.encodeEntry_of_encodeElement hw)
    exact ⟨y, ⟨hdecode, hstandard.admits_of_decode hdecode⟩, heq⟩
  obtain ⟨ys, hconverted, hequal⟩ := hback
  rw [← TypedArray.toList_ofBoxed .json ws] at hconverted
  obtain ⟨result, hresult, hbuilding, rfl⟩ := TypedArray.exists_decode henter hconverted
  refine ⟨.array result, map_eq_ok_iff.mpr ⟨result, hresult, rfl⟩, ?_⟩
  refine TypedArray.numEq_iff.mpr ⟨?_, hequal⟩
  rw [hbuilding.elementType]
  exact hstandard.numEq_self

/-- A map is taken back entry by entry, and compared by lookup. -/
theorem map {constraint : Option Ty} (hself : (Ty.map constraint).numEq (.map constraint) = true)
    (hvalues : (ofConstraint constraint).IsStandard) (ih : (ofConstraint constraint).TakesBack) :
    (Ty.map constraint).TakesBack := by
  intro x w depth hyields hencode
  obtain ⟨es, rfl, hdistinct, hes⟩ := yields_map hyields
  obtain ⟨inner, henter, es', hes', rfl⟩ :=
    (TypedMap.encodeEntry_eq_ok_iff rfl rfl hdistinct).mp hencode
  have hdistinct' : Entries.Distinct es' := hdistinct.of_forall₂ hes' fun _ _ h => h.1
  have hback : ∀ e' ∈ es', ∃ e'' : String × Value, (e''.1 = e'.1 ∧
      (ofConstraint constraint).decode inner e'.2 = .ok e''.2 ∧
      (ofConstraint constraint).admits e''.2 = true) ∧
      ∃ v, es.lookup e''.1 = some v ∧ e''.2.numEq v = true := by
    intro e' he'
    obtain ⟨e, he, hkey, hentry⟩ := exists_left_of_mem hes' he'
    obtain ⟨y, hdecode, heq⟩ := ih e.2 e'.2 inner (hes e he) hentry
    -- keys stay distinct on the way, so the entry encoded under a key is the one that is looked up
    have hlookup : es.lookup e'.1 = some e.2 := hkey ▸ hdistinct.lookup_eq_some he
    exact ⟨(e'.1, y), ⟨rfl, hdecode, hvalues.admits_of_decode hdecode⟩, e.2, hlookup, heq⟩
  obtain ⟨es'', hes''⟩ := exists_forall₂ hback
  have hdecode : TypedMap.decode constraint depth (.map ⟨.json, es', false⟩) =
      .ok ⟨.map constraint, es'', false⟩ := (TypedMap.decode_eq_ok_iff rfl hdistinct').mpr
    ⟨inner, henter, es'', hes''.imp fun _ _ h => h.1, rfl⟩
  refine ⟨.map ⟨.map constraint, es'', false⟩, map_eq_ok_iff.mpr ⟨_, hdecode, rfl⟩, ?_⟩
  refine TypedMap.numEq_iff.mpr ⟨hself, ?_, fun e'' he'' => ?_⟩
  · exact hes''.length_eq.symm.trans hes'.length_eq.symm
  · obtain ⟨-, -, -, hequal⟩ := exists_left_of_mem hes'' he''
    exact hequal

/-- A record is taken back field by field: each declared key is there in what was encoded, so no
default is taken. -/
theorem record {r : RecordTy} (hstandard : (Ty.record r).IsStandard)
    (ih : ∀ f ∈ r.fields, f.2.ty.TakesBack) : (Ty.record r).TakesBack := by
  intro x w depth hyields hencode
  obtain ⟨hdistinctFields, hdefaults⟩ := hstandard.self
  obtain ⟨es, rfl, hes⟩ := RecordTy.yields hdistinctFields hdefaults hyields
  have hdistinct : Entries.Distinct es := hdistinctFields.of_forall₂ hes fun _ _ h => h.1
  obtain ⟨inner, henter, es', hes', rfl⟩ :=
    (TypedMap.encodeEntry_eq_ok_iff rfl rfl hdistinct).mp hencode
  have hdistinct' : Entries.Distinct es' := hdistinct.of_forall₂ hes' fun _ _ h => h.1
  have hback : ∀ f ∈ r.fields, ∃ e'' : String × Value, (e''.1 = f.1 ∧
      f.2.decode inner (TypedMap.get? ⟨.json, es', false⟩ f.1) = .ok e''.2 ∧
      f.2.ty.admits e''.2 = true) ∧
      ∃ v, es.lookup e''.1 = some v ∧ e''.2.numEq v = true := by
    intro f hf
    -- the entry of the field in the record, and what it came out as
    obtain ⟨e, he, hkey, hfield⟩ := exists_right_of_mem hes hf
    obtain ⟨e', he', hkey', hentry⟩ := exists_right_of_mem hes' he
    obtain ⟨y, hdecode, heq⟩ := ih f hf e.2 e'.2 inner hfield hentry
    have hget : TypedMap.get? ⟨.json, es', false⟩ f.1 = some e'.2 := by
      rw [← hkey, ← hkey']
      exact hdistinct'.lookup_eq_some he'
    have hlookup : es.lookup f.1 = some e.2 := hkey ▸ hdistinct.lookup_eq_some he
    have hty : f.2.ty.IsStandard := hstandard.field hf
    refine ⟨(f.1, y), ⟨rfl, ?_, hty.admits_of_decode hdecode⟩, e.2, hlookup, heq⟩
    rw [hget, Field.decode_some]
    exact hdecode
  obtain ⟨es'', hes''⟩ := exists_forall₂ hback
  have hdecode : r.decode depth (.map ⟨.json, es', false⟩) = .ok ⟨.record r, es'', false⟩ :=
    (RecordTy.decode_eq_ok_iff rfl hdistinctFields).mpr
      ⟨inner, henter, es'', hes''.imp fun _ _ h => h.1, rfl⟩
  refine ⟨.map ⟨.record r, es'', false⟩, map_eq_ok_iff.mpr ⟨_, hdecode, rfl⟩, ?_⟩
  refine TypedMap.numEq_iff.mpr ⟨hstandard.numEq_self, ?_, fun e'' he'' => ?_⟩
  · exact hes''.length_eq.symm.trans hes.length_eq
  · obtain ⟨-, -, -, hequal⟩ := exists_left_of_mem hes'' he''
    exact hequal

end Ty.TakesBack

/-- **What a standard type with decided unions yields, it takes back.** -/
theorem Ty.takesBack {t : Ty} (hstandard : t.IsStandard) (hdecided : t.IsDecided) :
    t.TakesBack := by
  induction t with
  | scalar k => exact .scalar k
  | json => exact .json
  | any => exact .any
  | null => exact .null
  | union members nullable ih =>
    exact .union hstandard.self hdecided.self fun t ht =>
      ih t ht (hstandard.member ht) (hdecided.member ht)
  | array element ih => exact .array hstandard.element (ih hstandard.element hdecided.element)
  -- an open map is one whose values are of type `any`
  | openMap => exact .map hstandard.numEq_self (everywhere_any.mpr trivial) .any
  | mapOf t ih =>
    exact .map hstandard.numEq_self hstandard.constraint
      (ih hstandard.constraint hdecided.constraint)
  | record r ih _ =>
    exact .record hstandard fun f hf => ih f hf (hstandard.field hf) (hdecided.field hf)

/-- **Converting twice is as good as converting once.** The record type is declared with zero
defaults and its unions are decided; the document may be frozen. If the document is converted to a
record, and the record to JSON, then that is converted to an equal record, all under one limit. -/
theorem RecordTy.decode_encode_decode {r : RecordTy} (hstandard : (Ty.record r).IsStandard)
    (hdecided : (Ty.record r).IsDecided) {j : Json} (hkeyed : j.toValue.Keyed) {v : Value}
    (hv : v = j.toValue ∨ v = j.toValue.freeze) {limit : Nat} {t w : TypedMap}
    (hdecode : r.decode (.root limit) v = .ok t)
    (hencode : (Value.map t).encodeRecord (.root limit) = .ok w) :
    ∃ t', r.decode (.root limit) (.map w) = .ok t' ∧ (t' == t) = true := by
  have hdocument : v.IsDocument := by
    have hvalue := j.isDocument_toValue hkeyed
    rcases hv with rfl | rfl
    · exact hvalue
    · exact hvalue.freeze
  have hyields : (Ty.record r).Yields (.map t) :=
    .inl ⟨.root limit, v, hdocument, map_eq_ok_iff.mpr ⟨t, hdecode, rfl⟩⟩
  have htype : t.ty = .record r := (TypedMap.Building.decode_record hdecode).ty
  have hentry : (Value.map t).encodeEntry .json (.root limit) = .ok (.map w) :=
    (TypedMap.encodeRecord_eq_ok_iff (htype ▸ rfl) (htype ▸ rfl)).mp hencode
  obtain ⟨y, hagain, hequal⟩ := Ty.takesBack hstandard hdecided _ _ _ hyields hentry
  obtain ⟨t', ht', rfl⟩ := map_eq_ok_iff.mp hagain
  exact ⟨t', ht', hequal⟩

/-- A record of which each field is changed in its own way. -/
def RecordTy.parcel : RecordTy where
  name := "Parcel"
  fields := [("weight", .ofTy .decimal), ("fragile", .ofTy .string),
    ("sizes", .ofTy (.array (.optional .int))), ("notes", .ofTy .any),
    ("sender", .ofTy (.record ⟨"Sender", [("name", .ofTy (.union [.string] false))], none⟩))]
  rest := some .json

/-- A parcel as a document: with a key that is not declared, and without a sender. -/
def Json.parcel : Json :=
  .object [("notes", .array [.object [("seen", .bool false)]]), ("fragile", .bool true),
    ("route", .null), ("sizes", .array [.number (.ofInt64 4), .null]),
    ("weight", .number (.ofInt64 12))]

/-- The parcel as a record. What stands under `any` is still frozen. -/
def TypedMap.parcelRecord : TypedMap :=
  ⟨.record .parcel, [("weight", .decimal (.ofInt64 12)), ("fragile", .string "true"),
    ("sizes", .array (.ofBoxed (.optional .int) [.int 4, .null])),
    ("notes", .array ⟨.json, .boxed [.map ⟨.json, [("seen", .boolean false)], true⟩], true⟩),
    ("sender", .map ⟨.record ⟨"Sender", [("name", .ofTy (.union [.string] false))], none⟩,
      [("name", .string "")], false⟩)], false⟩

/-- The record as a JSON object. -/
def TypedMap.parcelObject : TypedMap :=
  ⟨.json, [("weight", .decimal (.ofInt64 12)), ("fragile", .string "true"),
    ("sizes", .array (.ofBoxed .json [.int 4, .null])),
    ("notes", .array (.ofBoxed .json [.map ⟨.json, [("seen", .boolean false)], true⟩])),
    ("sender", .map ⟨.json, [("name", .string "")], false⟩)], false⟩

/-- A frozen parcel goes to a record, to a JSON object and back. -/
theorem RecordTy.decode_encode_decode_parcel :
    RecordTy.parcel.decode (.root 3) Json.parcel.toValue.freeze = .ok .parcelRecord ∧
      (Value.map .parcelRecord).encodeRecord (.root 3) = .ok .parcelObject ∧
      ∃ t', RecordTy.parcel.decode (.root 3) (.map .parcelObject) = .ok t' ∧
        (t' == .parcelRecord) = true := by
  have hstandard : (Ty.record .parcel).IsStandard := by
    simp [Ty.IsStandard, Ty.IsStandardPart, parcel, Field.ofTy, Ty.optional, Ty.isNull,
      Entries.Distinct, Entries.keys]
  have hdecided : (Ty.record .parcel).IsDecided := by
    simp [Ty.IsDecided, parcel, Field.ofTy, Ty.optional, Ty.isNull]
  have hkeyed : Json.parcel.toValue.Keyed := by
    simp [Value.Keyed, Json.parcel, Json.toValue, Json.toValues, Json.toEntries,
      Part.HasDistinctKeys, Entries.Distinct, Entries.keys]
  have hdecode : RecordTy.parcel.decode (.root 3) Json.parcel.toValue.freeze =
      .ok .parcelRecord := rfl
  have hencode : (Value.map .parcelRecord).encodeRecord (.root 3) = .ok .parcelObject := rfl
  exact ⟨hdecode, hencode,
    decode_encode_decode hstandard hdecided hkeyed (.inr rfl) hdecode hencode⟩

end TypedJson
