import TypedJson.Proofs.Boxed.Operations
import TypedJson.Proofs.Building

/-!
# TypedJson — conversions without columns

A conversion makes arrays of its own and keeps them in columns where it can. So on the form without
columns it does not give the form of what it gives otherwise, but a value that differs from it in
storage alone:

* **`Value.Alike`** — the values differ in storage alone;
* **`Ty.zero_boxed`** — zero values;
* **`Ty.decode_boxed`** — conversion from JSON;
* **`Value.encode_boxed`** — conversion to JSON.

Each of them comes to the same outcome: the same error, or values that are alike. For the loops this
needs an invariant, as a write is only known to succeed alike on arrays whose storage fits.
-/

namespace TypedJson

/-! ## Values that differ in storage alone -/

/-- The types differ in the storage of their defaults alone. -/
def Ty.Alike (s t : Ty) : Prop := s.boxed = t.boxed

/-- The values differ in storage alone: in how some of the arrays are kept that occur in them, in
their declared types or in the defaults of these. -/
def Value.Alike (v w : Value) : Prop := v.boxed = w.boxed

def TypedArray.Alike (a b : TypedArray) : Prop := a.boxed = b.boxed

def TypedMap.Alike (m n : TypedMap) : Prop := m.boxed = n.boxed

/-! ## Making values -/

/-- An empty array that starts with a column has the form of one that starts without. -/
theorem TypedArray.boxed_empty (t : Ty) : (empty t).boxed = emptyBoxed t.boxed := by
  rw [boxed_eq, toList_empty]
  rfl

/-- The zero of the form of a type is not the form of its zero, for it may start with a column. The
two are alike, which is all that can be said. -/
theorem Ty.zero_boxed (t : Ty) : t.zero.Alike t.boxed.zero := by
  induction t with
  | union members nullable ih =>
    rw [boxed_union]
    -- null, if the union allows it, and otherwise the zero of the first member
    cases nullable with
    | true => rfl
    | false =>
      cases members with
      | nil => rfl
      | cons t rest => exact ih t List.mem_cons_self
  | array element _ =>
    show Value.array (TypedArray.empty element).boxed =
      Value.array (TypedArray.empty element.boxed).boxed
    rw [TypedArray.boxed_empty, TypedArray.boxed_empty, boxed_boxed]
  | openMap => rfl
  | mapOf t _ =>
    exact congrArg (fun t => Value.map ⟨t, [], false⟩) (boxed_boxed (.mapOf t)).symm
  | record r _ _ =>
    -- the defaults of the form are the forms of the defaults, and forms of forms are forms
    have hentries : (r.fields.map fun f => (f.1, f.2.default)).map (fun e => (e.1, e.2.boxed)) =
        (r.boxed.fields.map fun f => (f.1, f.2.default)).map fun e => (e.1, e.2.boxed) := by
      rw [RecordTy.boxed_eq, List.map_map, List.map_map, List.map_map]
      refine List.map_congr_left fun f _ => ?_
      simp [Field.boxed_eq]
    show Value.map (TypedMap.boxed ⟨.record r, r.fields.map fun f => (f.1, f.2.default), false⟩) =
      Value.map
        (TypedMap.boxed ⟨.record r.boxed, r.boxed.fields.map fun f => (f.1, f.2.default), false⟩)
    have hty : (Ty.record r.boxed).boxed = (Ty.record r).boxed := boxed_boxed (.record r)
    rw [TypedMap.boxed_eq, TypedMap.boxed_eq, hentries, hty]
  | _ => rfl

/-! ## Alike in, alike out -/

namespace Value.Alike

@[refl] theorem refl (v : Value) : v.Alike v := Eq.refl v.boxed

theorem boxed (v : Value) : v.Alike v.boxed := v.boxed_boxed.symm

end Value.Alike

theorem map_boxed_boxed (vs : List Value) :
    vs.map Value.boxed = (vs.map Value.boxed).map Value.boxed := by
  rw [List.map_map]
  exact List.map_congr_left fun v _ => v.boxed_boxed.symm

namespace TypedArray

theorem alike_iff {a b : TypedArray} : (Value.array a).Alike (.array b) ↔ a.Alike b :=
  ⟨Value.array.inj, congrArg Value.array⟩

/-- A write of alike values into alike arrays. -/
theorem set_alike {a b : TypedArray} (ha : a.storage.Fits a.elementType)
    (hb : b.storage.Fits b.elementType) (hab : a.Alike b) (index : Int) {v w : Value}
    (hvw : v.Alike w) : SameOutcome Alike (a.set index v) (b.set index w) := by
  refine SameOutcome.of_map_eq ?_
  -- both writes are brought to the one write into the common form
  rw [← set_boxed ha, ← set_boxed hb]
  exact congrArg₂ (fun (a : TypedArray) v => a.set index v) hab hvw

/-- Alike arrays are of one length, so that both append at the same index. -/
theorem size_of_alike {a b : TypedArray} (hab : a.Alike b) : a.size = b.size := by
  rw [← size_boxed a, ← size_boxed b]
  exact congrArg size hab

/-- The elements of two arrays of one type are all that tells them apart. -/
theorem ofBoxed_alike (t : Ty) {vs ws : List Value}
    (h : vs.map Value.boxed = ws.map Value.boxed) : (ofBoxed t vs).Alike (ofBoxed t ws) := by
  show (ofBoxed t vs).boxed = (ofBoxed t ws).boxed
  rw [boxed_eq, boxed_eq, toList_ofBoxed, toList_ofBoxed, h]
  rfl

/-- Two arrays under construction that differ in storage alone. -/
structure BuiltAlike (t : Ty) (a b : TypedArray) : Prop where
  alike : a.Alike b
  left : a.Building t
  right : b.Building t.boxed

namespace BuiltAlike

variable {t : Ty} {a b : TypedArray}

/-- Both start empty, one perhaps with a column and the other without. -/
theorem ofEmpty (t : Ty) : BuiltAlike t (empty t) (empty t.boxed) where
  alike := by
    show (empty t).boxed = (empty t.boxed).boxed
    rw [boxed_empty, boxed_empty, Ty.boxed_boxed]
  left := .ofEmpty t
  right := .ofEmpty t.boxed

/-- Values that are alike are appended alike. The element type admits both or neither, and then both
storages take them: this needs them to fit. -/
theorem push (h : BuiltAlike t a b) {v w : Value} (hvw : v.Alike w) :
    SameOutcome (BuiltAlike t) (a.push v) (b.push w) := by
  have ha : a.storage.Fits a.elementType := h.left.elementType ▸ h.left.fits
  have hb : b.storage.Fits b.elementType := h.right.elementType ▸ h.right.fits
  have houtcome : SameOutcome Alike (a.push v) (b.push w) := by
    rw [TypedArray.push_eq, TypedArray.push_eq, ← size_of_alike h.alike]
    exact set_alike ha hb h.alike a.size hvw
  exact (houtcome.and (fun _ => h.left.push) fun _ => h.right.push).mono
    fun _ _ h => ⟨h.1, h.2.1, h.2.2⟩

variable {convert convert' : Value → Except Error Value}

/-- The loop without labels, on a list of values and on that of their forms. -/
theorem collect (h : BuiltAlike t a b) {vs : List Value}
    (hconvert : ∀ v ∈ vs, SameOutcome Value.Alike (convert v) (convert' v.boxed)) :
    SameOutcome (BuiltAlike t) (TypedArray.collect convert vs a)
      (TypedArray.collect convert' (vs.map Value.boxed) b) :=
  SameOutcome.foldlM (fun v hv _ _ hab =>
    (hconvert v hv).bind fun _ _ hvw => hab.push hvw) h

/-- The loop that names the index of an element in its errors. -/
theorem collectLabelled (h : BuiltAlike t a b) {vs : List Value} (index : Nat)
    (hconvert : ∀ v ∈ vs, SameOutcome Value.Alike (convert v) (convert' v.boxed)) :
    SameOutcome (BuiltAlike t) (TypedArray.collectLabelled convert index vs a)
      (TypedArray.collectLabelled convert' index (vs.map Value.boxed) b) := by
  induction vs generalizing index a b with
  | nil => exact .ok h
  | cons v rest ih =>
    have hstore : SameOutcome (BuiltAlike t) (a.store index (convert v))
        (b.store index (convert' v.boxed)) :=
      ((hconvert v List.mem_cons_self).bind fun _ _ hvw => h.push hvw).mapError
    -- the index counts on, and the arrays are alike after every element
    exact hstore.bind fun _ _ hab =>
      ih hab (index + 1) fun w hw => hconvert w (List.mem_cons_of_mem v hw)

end BuiltAlike

/-- Arrays that are built by the caller, each element checked. -/
theorem ofList_alike (t : Ty) (vs : List Value) :
    SameOutcome Alike (ofList t vs) (ofList t.boxed (vs.map Value.boxed)) :=
  (SameOutcome.foldlM (R := BuiltAlike t) (fun v _ _ _ hab => hab.push (.boxed v))
    (BuiltAlike.ofEmpty t)).mono fun _ _ h => h.alike

end TypedArray

namespace TypedMap

theorem alike_iff {m n : TypedMap} : (Value.map m).Alike (.map n) ↔ m.Alike n :=
  ⟨Value.map.inj, congrArg Value.map⟩

/-- Alike maps take or refuse alike values together. -/
theorem put_alike {m n : TypedMap} (hmn : m.Alike n) (key : String) {v w : Value}
    (hvw : v.Alike w) : SameOutcome Alike (m.put key v) (n.put key w) := by
  refine SameOutcome.of_map_eq ?_
  rw [← put_boxed, ← put_boxed]
  exact congrArg₂ (fun (m : TypedMap) v => m.put key v) hmn hvw

/-- What is put may come out of a conversion, and labels go by the key. -/
theorem store_alike {m n : TypedMap} (hmn : m.Alike n) (key : String)
    {converted converted' : Except Error Value}
    (h : SameOutcome Value.Alike converted converted') :
    SameOutcome Alike (m.store key converted) (n.store key converted') :=
  (h.bind fun _ _ hvw => put_alike hmn key hvw).mapError

/-- The loop over the entries of a map. -/
theorem collect_alike {m n : TypedMap} (hmn : m.Alike n)
    {convert convert' : Value → Except Error Value} {entries : List (String × Value)}
    (hconvert : ∀ e ∈ entries, SameOutcome Value.Alike (convert e.2) (convert' e.2.boxed)) :
    SameOutcome Alike (collect convert entries m)
      (collect convert' (entries.map fun e => (e.1, e.2.boxed)) n) :=
  SameOutcome.foldlM (fun e he _ _ hmn => store_alike hmn e.1 (hconvert e he)) hmn

theorem empty_alike (t : Ty) : (empty t).Alike (empty t.boxed) :=
  congrArg (fun t => TypedMap.mk t [] false) t.boxed_boxed.symm

end TypedMap

/-! ## From JSON -/

/-- A conversion to a scalar type gives a scalar, and what it looks at has one form: the scalar, or
the text and the name of a container. -/
theorem ScalarKind.decode_boxed (k : ScalarKind) (depth : Depth) (v : Value) :
    k.decode depth v.boxed = k.decode depth v := by
  have hstring (v : Value) : (do
      v.boxed.checkNesting depth
      return Value.string v.boxed.text) = (do
      v.checkNesting depth
      return Value.string v.text : Except Error Value) := by
    rw [Value.checkNesting_boxed, Value.text_boxed]
  have hname (v : Value) : v.boxed.typeName = v.typeName := v.typeName_boxed
  cases v with
  | null => rfl
  | scalar s => rfl
  | array a =>
    cases k with
    | string => exact hstring (.array a)
    -- no container is a byte: this error names the expected type first, the others the target of
    -- the cast
    | byte =>
      exact congrArg (fun name => Except.error (Error.incompatible _ name)) (hname (.array a))
    | _ => exact congrArg (fun name => Except.error (Error.notCastable _ name)) (hname (.array a))
  | map m =>
    cases k with
    | string => exact hstring (.map m)
    | byte => exact congrArg (fun name => Except.error (Error.incompatible _ name)) (hname (.map m))
    | _ => exact congrArg (fun name => Except.error (Error.notCastable _ name)) (hname (.map m))

/-- A conversion to an array, given that its elements are converted alike. The result may be kept in
a column on one side only. -/
theorem TypedArray.decodeWith_alike (elementType : Ty)
    {convert convert' : Depth → Value → Except Error Value}
    (hconvert : ∀ inner v, SameOutcome Value.Alike (convert inner v) (convert' inner v.boxed))
    (depth : Depth) (v : Value) :
    SameOutcome Alike (decodeWith elementType convert depth v)
      (decodeWith elementType.boxed convert' depth v.boxed) := by
  cases v with
  | array source =>
    show SameOutcome Alike (depth.enter >>= _) (depth.enter >>= _)
    cases depth.enter with
    | error e => exact .error e
    | ok inner =>
      have hitems : ∀ v ∈ source.toList,
          SameOutcome Value.Alike (convert inner v) (convert' inner v.boxed) :=
        fun v _ => hconvert inner v
      -- which of the two loops runs, or neither, depends on the element type alone
      have hcollect := (BuiltAlike.ofEmpty elementType).collect hitems
      have hlabelled := (BuiltAlike.ofEmpty elementType).collectLabelled 0 hitems
      rw [← toList_boxed] at hcollect hlabelled
      cases elementType with
      | scalar k =>
        cases k with
        | byte => exact hlabelled.mono fun _ _ h => h.alike
        | _ => exact hcollect.mono fun _ _ h => h.alike
      | any =>
        refine .ok (ofBoxed_alike .any ?_)
        rw [toList_boxed]
        exact map_boxed_boxed source.toList
      | _ => exact hlabelled.mono fun _ _ h => h.alike
  | map m =>
    show SameOutcome Alike (.error (Error.incompatible "json-array" (Value.map m).typeName))
      (.error (Error.incompatible "json-array" (Value.map m).boxed.typeName))
    rw [Value.typeName_boxed]
    exact .error _
  | _ => exact .error _

/-- A conversion to a map. There is no column at this level, so it is the loop over entries and
nothing else. -/
theorem TypedMap.decodeWith_alike (constraint : Option Ty)
    {convert convert' : Depth → Value → Except Error Value}
    (hconvert : ∀ inner v, SameOutcome Value.Alike (convert inner v) (convert' inner v.boxed))
    (depth : Depth) (v : Value) :
    SameOutcome Alike (decodeWith constraint convert depth v)
      (decodeWith (constraint.map Ty.boxed) convert' depth v.boxed) := by
  unfold decodeWith
  rw [Value.asObject?_boxed, Value.typeName_boxed]
  cases v.asObject? with
  | none => exact .error _
  | some source =>
    show SameOutcome Alike (depth.enter >>= _) (depth.enter >>= _)
    cases depth.enter with
    | error e => exact .error e
    | ok inner =>
      have hempty : (empty (.map constraint)).Alike (empty (.map (constraint.map Ty.boxed))) := by
        rw [← Ty.boxed_map]
        exact empty_alike (.map constraint)
      have hitems : ∀ e ∈ source.entries,
          SameOutcome Value.Alike (convert inner e.2) (convert' inner e.2.boxed) :=
        fun e _ => hconvert inner e.2
      have hcollect := collect_alike hempty hitems
      rw [← entries_boxed] at hcollect
      exact hcollect

/-- A conversion to a record. A default is taken from the type, where it may have a column; the one
of the form of the type has none. -/
theorem RecordTy.decode_alike (r : RecordTy)
    (hconvert : ∀ f ∈ r.fields, ∀ inner v,
      SameOutcome Value.Alike (f.2.ty.decode inner v) (f.2.ty.boxed.decode inner v.boxed))
    (depth : Depth) (v : Value) :
    SameOutcome TypedMap.Alike (r.decode depth v) (r.boxed.decode depth v.boxed) := by
  rw [decode_eq, decode_eq, Value.asObject?_boxed, Value.typeName_boxed]
  cases v.asObject? with
  | none => exact .error _
  | some source =>
    show SameOutcome TypedMap.Alike (depth.enter >>= _) (depth.enter >>= _)
    cases depth.enter with
    | error e => exact .error e
    | ok inner =>
      have hfields : r.boxed.fields = r.fields.map fun f => (f.1, f.2.boxed) := by rw [boxed_eq]
      show SameOutcome TypedMap.Alike (r.fields.foldlM _ _) (r.boxed.fields.foldlM _ _)
      rw [hfields]
      refine SameOutcome.foldlM (fun f hf m n hmn => TypedMap.store_alike hmn f.1 ?_)
        (TypedMap.empty_alike (.record r))
      rw [TypedMap.get?_boxed, Field.boxed_eq]
      cases source.get? f.1 with
      | none =>
        -- the default of the target stands in, and that of its form on the other side
        rw [Field.decode_none, Option.map_none, Field.decode_none]
        exact .ok (Value.Alike.boxed f.2.default)
      | some x =>
        rw [Field.decode_some, Option.map_some, Field.decode_some]
        exact hconvert f hf inner x

theorem Ty.nonNull_boxed (members : List Ty) :
    nonNull (members.map boxed) = (nonNull members).map boxed := by
  rw [nonNull, nonNull, List.filter_map]
  simp [Function.comp_def]

/-- **Conversion from JSON does not see storage.** -/
theorem Ty.decode_boxed (t : Ty) (depth : Depth) (v : Value) :
    SameOutcome Value.Alike (t.decode depth v) (t.boxed.decode depth v.boxed) := by
  induction t generalizing depth v with
  | scalar k =>
    show SameOutcome Value.Alike (k.decode depth v) (k.decode depth v.boxed)
    rw [ScalarKind.decode_boxed]
    exact .refl .refl _
  | json =>
    have hadmits : Ty.json.admits v.boxed = Ty.json.admits v := admits_boxed .json v
    rw [show Ty.json.boxed = .json from rfl, decode, decode, hadmits, Value.typeName_boxed]
    split
    · exact .ok (.boxed v)
    · exact .error _
  | any => exact .ok (.boxed v)
  | null =>
    rw [show Ty.null.boxed = .null from rfl, decode, decode, Value.isNull_boxed,
      Value.typeName_boxed]
    split
    · exact .ok (.refl .null)
    · exact .error _
  | union members nullable ih =>
    have hname :
        (Ty.union (members.map boxed) nullable).name = (Ty.union members nullable).name := by
      rw [← boxed_union, name_boxed]
    rw [boxed_union, decode, decode, decodeOnly_eq, decodeOnly_eq, Value.isNull_boxed,
      Value.typeName_boxed, nonNull_boxed, hname]
    split
    · exact .ok (.refl .null)
    · -- only a union with a single member besides null is converted to
      cases hnonNull : nonNull members with
      | nil => exact .error _
      | cons only rest =>
        cases rest with
        | nil =>
          have hmem : only ∈ nonNull members := hnonNull ▸ List.mem_singleton_self only
          exact ih only (List.mem_filter.mp hmem).1 depth v
        | cons _ _ => exact .error _
  | array element ih =>
    exact (TypedArray.decodeWith_alike element ih depth v).map fun _ _ => TypedArray.alike_iff.mpr
  | openMap =>
    exact (TypedMap.decodeWith_alike none (fun _ v => .ok (.boxed v)) depth v).map
      fun _ _ => TypedMap.alike_iff.mpr
  | mapOf t ih =>
    -- entries of `json` and of `any` are passed on as they are
    have hconvert (inner v) : SameOutcome Value.Alike
        ((if t.isAny || t.isJson then fun _ => .ok else t.decode) inner v)
        ((if t.boxed.isAny || t.boxed.isJson then fun _ => .ok else t.boxed.decode) inner
          v.boxed) := by
      rw [isAny_boxed, isJson_boxed]
      split
      · exact .ok (.boxed v)
      · exact ih inner v
    exact (TypedMap.decodeWith_alike (some t) hconvert depth v).map
      fun _ _ => TypedMap.alike_iff.mpr
  | record r ihFields _ =>
    exact (r.decode_alike (fun f hf => ihFields f hf) depth v).map fun _ _ => TypedMap.alike_iff.mpr

/-! ## To JSON -/

/-- A conversion of an array to JSON, given that its elements are converted alike. -/
theorem TypedArray.encode_alike (a : TypedArray)
    (hconvert : ∀ v ∈ a.toList, ∀ allowed inner,
      SameOutcome Value.Alike (v.encodeElement allowed inner) (v.boxed.encodeElement allowed inner))
    (depth : Depth) : SameOutcome Alike (a.encode depth) (a.boxed.encode depth) := by
  rw [encode_eq, encode_eq, toList_boxed, elementType_boxed]
  cases depth.enter with
  | error e => exact .error e
  | ok inner =>
    -- scalars that are JSON already are copied, all other elements are converted
    have hcopy : SameOutcome Alike (.ok (ofBoxed .json a.toList) : Except Error TypedArray)
        (.ok (ofBoxed .json (a.toList.map Value.boxed))) :=
      .ok (ofBoxed_alike .json (map_boxed_boxed a.toList))
    have hloop (t : Ty) : SameOutcome Alike
        (a.toList.mapM (·.encodeElement t.isJsonCompatible inner) >>= fun ws =>
          .ok (ofBoxed .json ws))
        ((a.toList.map Value.boxed).mapM (·.encodeElement t.boxed.isJsonCompatible inner) >>=
          fun ws => .ok (ofBoxed .json ws)) := by
      rw [Ty.isJsonCompatible_boxed]
      exact (SameOutcome.mapM fun v hv => hconvert v hv _ inner).bind fun vs ws h =>
        .ok (ofBoxed_alike .json (map_eq_map_of_forall₂ h fun _ _ _ _ halike => halike))
    cases a.elementType with
    | scalar k =>
      cases k with
      | decimal => exact hloop .decimal
      | byte => exact hloop .byte
      | _ => exact hcopy
    | json => exact hloop .json
    | any => exact hloop .any
    | null => exact hloop .null
    | union members nullable => exact hloop (.union members nullable)
    | array element => exact hloop (.array element)
    | map constraint => exact hloop (.map constraint)
    | record r => exact hloop (.record r)

/-- A map is rebuilt by the loop that converts to a map, now with the target type as the constraint
on values. -/
theorem TypedMap.rebuild_alike (m : TypedMap) (target : Ty) (depth : Depth)
    (hconvert : ∀ e ∈ m.entries, ∀ inner, SameOutcome Value.Alike (e.2.encodeEntry target inner)
      (e.2.boxed.encodeEntry target.boxed inner)) :
    SameOutcome Alike (m.rebuild target depth) (m.boxed.rebuild target.boxed depth) := by
  rw [rebuild_eq, rebuild_eq, entries_boxed]
  cases depth.enter with
  | error e => exact .error e
  | ok inner =>
    show SameOutcome Alike (collect (·.encodeEntry target inner) m.entries (.empty target))
      (collect (·.encodeEntry target.boxed inner) (m.entries.map fun e => (e.1, e.2.boxed))
        (.empty target.boxed))
    -- each entry is converted one level further down
    exact collect_alike (empty_alike target) fun e he => hconvert e he inner

/-- A map inside a container: passed on, rebuilt or refused, by its declared type. -/
theorem TypedMap.encode_alike (m : TypedMap) (target : Ty) (depth : Depth)
    (hconvert : ∀ e ∈ m.entries, ∀ inner, SameOutcome Value.Alike (e.2.encodeEntry target inner)
      (e.2.boxed.encodeEntry target.boxed inner)) :
    SameOutcome Value.Alike (m.encode target depth) (m.boxed.encode target.boxed depth) := by
  have hrebuild := (m.rebuild_alike target depth hconvert).map
    (f := Value.map) (g := Value.map) fun _ _ => alike_iff.mpr
  have hrefused (t : Ty) : SameOutcome Value.Alike
      (.error (Error.incompatible Ty.json.name t.name) : Except Error Value)
      (.error (Error.incompatible Ty.json.name t.boxed.name)) := by
    rw [Ty.name_boxed]
    exact .error _
  rw [encode_eq, encode_eq, ty_boxed]
  cases m.ty with
  | json => exact .ok (.boxed (.map m))
  | map constraint => exact hrebuild
  | record r => exact hrebuild
  | scalar k => exact hrefused (.scalar k)
  | any => exact hrefused .any
  | null => exact hrefused .null
  | union members nullable => exact hrefused (.union members nullable)
  | array element => exact hrefused (.array element)

/-- **Conversion to JSON does not see storage**, neither of elements nor of entries. -/
theorem Value.encode_boxed (v : Value) :
    (∀ allowed depth, SameOutcome Alike (v.encodeElement allowed depth)
      (v.boxed.encodeElement allowed depth)) ∧
    ∀ target depth, SameOutcome Alike (v.encodeEntry target depth)
      (v.boxed.encodeEntry target.boxed depth) := by
  induction v with
  | null => exact ⟨fun _ _ => .ok (.refl .null), fun _ _ => .ok (.refl .null)⟩
  | scalar s =>
    exact ⟨fun allowed _ => .refl .refl (s.encode allowed), fun _ _ => .refl .refl (s.encode true)⟩
  -- an array comes out the same inside of an array and of a map
  | array a ih =>
    have harray (depth) : SameOutcome Alike ((a.encode depth).map Value.array)
        ((a.boxed.encode depth).map Value.array) :=
      (a.encode_alike (fun v hv => (ih v hv).1) depth).map fun _ _ => TypedArray.alike_iff.mpr
    exact ⟨fun _ depth => harray depth, fun _ depth => harray depth⟩
  | map m ih =>
    have hmap (target depth) : SameOutcome Alike (m.encode target depth)
        (m.boxed.encode target.boxed depth) :=
      m.encode_alike target depth fun e he inner => (ih e he).2 target inner
    exact ⟨fun _ depth => hmap .json depth, hmap⟩

/-- An error that names a type does not show storage. -/
theorem Value.refused_alike {α β : Type} {R : α → β → Prop} (v : Value) :
    SameOutcome R (.error (Error.incompatible Ty.json.name v.typeName))
      (.error (Error.incompatible Ty.json.name v.boxed.typeName)) := by
  rw [typeName_boxed]
  exact .error _

/-- The value of a union. An array is refused by name, and names are the same. -/
theorem Value.encodeMember_boxed (v : Value) (target : Ty) (depth : Depth) :
    SameOutcome Alike (v.encodeMember target depth) (v.boxed.encodeMember target.boxed depth) := by
  cases v with
  | null => exact .ok (.refl .null)
  | scalar s => exact .refl .refl (s.encode true)
  | array a => exact refused_alike (.array a)
  | map m => exact (Value.map m).encode_boxed.2 target depth

/-- A record, a map or a JSON object, at the outermost level. -/
theorem Value.encodeRecord_boxed (v : Value) (depth : Depth) :
    SameOutcome TypedMap.Alike (v.encodeRecord depth) (v.boxed.encodeRecord depth) := by
  cases v with
  | map m =>
    have hrebuild := m.rebuild_alike .json depth fun e _ inner => e.2.encode_boxed.2 .json inner
    show SameOutcome TypedMap.Alike
      (if m.ty.isMapping then m.rebuild .json depth
        else .error (Error.incompatible Ty.json.name (Value.map m).typeName))
      (if m.boxed.ty.isMapping then m.boxed.rebuild .json depth
        else .error (Error.incompatible Ty.json.name (Value.map m).boxed.typeName))
    rw [TypedMap.ty_boxed, Ty.isMapping_boxed]
    split
    · exact hrebuild
    · exact refused_alike (.map m)
  | array a => exact refused_alike (.array a)
  | _ => exact .error _

end TypedJson
