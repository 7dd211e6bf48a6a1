import TypedJson.Proofs.Building
import TypedJson.Proofs.Subtyping

/-!
# TypedJson — what a converted container holds

A conversion loop writes as it goes, so what it leaves behind has to be read off its last state.
Seen from the outside it does something simpler: it converts each element or entry, in order, and
asks whether the container admits the result. The lemmas here say so, and proofs about results of
conversions need neither loops nor states any more:

* **`TypedArray.decode_eq_ok`**, **`TypedArray.exists_decode`** — arrays, element by element;
* **`TypedMap.decode_eq_ok_iff`**, **`RecordTy.decode_eq_ok_iff`** — maps and records, key by key;
* **`TypedArray.encode_eq_ok_iff`**, **`TypedMap.rebuild_eq_ok_iff`** — the way back to JSON, which
  for maps and records ends in a JSON object (**`TypedMap.encodeEntry_eq_ok_iff`**).

For maps this takes distinct keys: then no put finds its key taken, and each one appends.
-/

namespace TypedJson

/-! ## Arrays -/

namespace TypedArray

/-- A push appends the value, in the form in which the element type stores it. -/
theorem push_eq_ok {a after : TypedArray} {v : Value} (h : a.push v = .ok after) :
    a.elementType.admits v = true ∧ after.toList = a.toList ++ [a.elementType.normalize v] := by
  obtain ⟨-, -, -, hadmits, -, -, htoList⟩ := set_eq_ok h
  refine ⟨hadmits, ?_⟩
  rw [htoList]
  exact if_pos rfl

/-- A label on a failure does not matter where there is none. -/
theorem collectLabelled_eq_ok_iff {convert : Value → Except Error Value} {index : Nat}
    {vs : List Value} {out after : TypedArray} :
    collectLabelled convert index vs out = .ok after ↔ collect convert vs out = .ok after := by
  induction vs generalizing index out with
  | nil => exact Iff.rfl
  | cons v rest ih =>
    unfold collectLabelled collect
    rw [List.foldlM_cons, bind_eq_ok_iff, bind_eq_ok_iff]
    refine exists_congr fun next => and_congr ?_ ih
    rw [store_eq_ok_iff, bind_eq_ok_iff]

variable {t : Ty} {convert : Value → Except Error Value} {vs ws : List Value}
  {out after : TypedArray}

/-- What the loop appended is what was converted, each of it admitted. -/
theorem collect_eq_ok (hout : out.Building t)
    (hnormal : ∀ v w, convert v = .ok w → t.normalize w = w)
    (h : collect convert vs out = .ok after) :
    ∃ ws, List.Forall₂ (fun v w => convert v = .ok w ∧ t.admits w = true) vs ws ∧
      after.toList = out.toList ++ ws := by
  induction vs generalizing out with
  | nil =>
    cases h
    exact ⟨[], .nil, (List.append_nil _).symm⟩
  | cons v rest ih =>
    -- one step of the loop: convert, then append
    unfold collect at h
    rw [List.foldlM_cons] at h
    obtain ⟨next, hnext, hrest⟩ := bind_eq_ok_iff.mp h
    obtain ⟨w, hw, hpush⟩ := bind_eq_ok_iff.mp hnext
    obtain ⟨hadmits, htoList⟩ := push_eq_ok hpush
    rw [hout.elementType] at hadmits htoList
    -- the value is stored in the form it came in, so the elements are what the conversions gave
    rw [hnormal v w hw] at htoList
    obtain ⟨ws, hws, hafter⟩ := ih (hout.push hpush) hrest
    refine ⟨w :: ws, .cons ⟨hw, hadmits⟩ hws, ?_⟩
    rw [hafter, htoList, List.append_assoc]
    rfl

/-- The loop goes through if all that it converts is admitted. -/
theorem exists_collect (hout : out.Building t)
    (h : List.Forall₂ (fun v w => convert v = .ok w ∧ t.admits w = true) vs ws) :
    ∃ after, collect convert vs out = .ok after := by
  induction h generalizing out with
  | nil => exact ⟨out, rfl⟩
  | cons hhead _ ih =>
    obtain ⟨hconvert, hadmits⟩ := hhead
    -- an array under construction takes what its type admits
    obtain ⟨next, hpush⟩ := hout.push_of_admits hadmits
    obtain ⟨after, hafter⟩ := ih (hout.push hpush)
    refine ⟨after, ?_⟩
    unfold collect
    rw [List.foldlM_cons]
    exact bind_eq_ok_iff.mpr ⟨next, bind_eq_ok_iff.mpr ⟨_, hconvert, hpush⟩, hafter⟩

end TypedArray

/-- A scalar of the very type is stored as it is. -/
theorem Scalar.normalize_of_kind {k : ScalarKind} {s : Scalar} (h : s.kind = k) :
    s.normalize k = s := by
  subst h
  cases s <;> rfl

/-- What a conversion gives is in the form in which an array stores it. -/
theorem Ty.normalize_of_decode {t : Ty} {depth : Depth} {v w : Value}
    (h : t.decode depth v = .ok w) : t.normalize w = w := by
  cases t with
  | scalar k =>
    obtain ⟨s, rfl, hkind⟩ := ScalarKind.decode_eq_ok h
    exact congrArg Value.scalar (Scalar.normalize_of_kind hkind)
  | _ => rfl

namespace TypedArray

variable {element : Ty} {depth inner : Depth} {v : Value} {source out : TypedArray}

/-- **An array is converted element by element**, each result admitted by the element type. -/
theorem decode_eq_ok (h : decode element depth v = .ok out) :
    ∃ source inner, v = .array source ∧ depth.enter = .ok inner ∧ out.Building element ∧
      List.Forall₂ (fun x y => element.decode inner x = .ok y ∧ element.admits y = true)
        source.toList out.toList := by
  have hbuilding : out.Building element := .decodeWith h
  obtain ⟨source, inner, rfl, hinner, hcases⟩ := decodeWith_eq_ok h
  refine ⟨source, inner, rfl, hinner, hbuilding, ?_⟩
  have hcollected (hcollect : collect (element.decode inner) source.toList (.empty element) =
      .ok out) : List.Forall₂ (fun x y => element.decode inner x = .ok y ∧
        element.admits y = true) source.toList out.toList := by
    obtain ⟨ws, hws, htoList⟩ :=
      collect_eq_ok (.ofEmpty element) (fun _ _ => Ty.normalize_of_decode) hcollect
    rw [toList_empty, List.nil_append] at htoList
    rw [htoList]
    exact hws
  rcases hcases with hcollect | ⟨rfl, rfl⟩ | hlabelled
  · exact hcollected hcollect
  · -- elements of `any` are copied, which is what converting them to `any` does
    exact List.forall₂_same.mpr fun x _ => ⟨rfl, rfl⟩
  · exact hcollected (collectLabelled_eq_ok_iff.mp hlabelled)

/-- An array is converted if all of its elements are, with results that the element type admits. -/
theorem exists_decode (hinner : depth.enter = .ok inner)
    {ws : List Value} (h : List.Forall₂
      (fun x y => element.decode inner x = .ok y ∧ element.admits y = true) source.toList ws) :
    ∃ out, decode element depth (.array source) = .ok out ∧ out.Building element ∧
      out.toList = ws := by
  obtain ⟨out, hcollect⟩ := exists_collect (.ofEmpty element) h
  have hdecode : ∃ out, decode element depth (.array source) = .ok out := by
    unfold decode decodeWith
    rw [hinner]
    -- which loop runs is a matter of the element type
    simp only [bind, Except.bind]
    split
    case h_6 => exact ⟨_, rfl⟩
    case h_7 => exact ⟨out, collectLabelled_eq_ok_iff.mpr hcollect⟩
    all_goals exact ⟨out, hcollect⟩
  obtain ⟨out, hout⟩ := hdecode
  obtain ⟨other, otherInner, heq, hother, hbuilding, hresults⟩ := decode_eq_ok hout
  refine ⟨out, hout, hbuilding, ?_⟩
  -- the results are determined by the elements, so they are these
  cases heq
  cases hinner.symm.trans hother
  have hunique : Relator.RightUnique fun x y =>
      element.decode inner x = .ok y ∧ element.admits y = true :=
    fun x y z hy hz => Except.ok.inj (hy.1.symm.trans hz.1)
  exact List.right_unique_forall₂' hunique hresults h

end TypedArray

/-! ## Maps -/

/-- Entries that are related key by key have the same keys. -/
theorem Entries.keys_eq_of_forall₂ {α β : Type} {R : String × α → String × β → Prop}
    {es : Entries α} {es' : Entries β} (h : List.Forall₂ R es es')
    (hkey : ∀ e e', R e e' → e'.1 = e.1) : keys es' = keys es :=
  (map_eq_map_of_forall₂ h fun e _ e' _ hR => (hkey e e' hR).symm).symm

theorem Entries.Distinct.of_forall₂ {α β : Type} {R : String × α → String × β → Prop}
    {es : Entries α} {es' : Entries β} (hdistinct : Distinct es) (h : List.Forall₂ R es es')
    (hkey : ∀ e e', R e e' → e'.1 = e.1) : Distinct es' := by
  unfold Distinct
  rw [keys_eq_of_forall₂ h hkey]
  exact hdistinct

/-- **A loop that stores under distinct keys that are not there yet** appends an entry for each
item, in order. -/
theorem TypedMap.storeAll_eq_ok_iff {α : Type} {items : List (String × α)}
    {convert : String × α → Except Error Value} {out after : TypedMap}
    (hthawed : out.frozen = false)
    (hdistinct : (out.keys ++ Entries.keys items).Nodup) :
    items.foldlM (fun (out : TypedMap) item => out.store item.1 (convert item)) out = .ok after ↔
      ∃ es, List.Forall₂ (fun item e => e.1 = item.1 ∧ convert item = .ok e.2 ∧
          out.rejection? e.1 e.2 = none) items es ∧
        after = { out with entries := out.entries ++ es } := by
  induction items generalizing out with
  | nil =>
    cases out
    constructor
    · intro h
      cases h
      exact ⟨[], .nil, by rw [List.append_nil]⟩
    · rintro ⟨es, hes, rfl⟩
      rw [List.forall₂_nil_left_iff.mp hes, List.append_nil]
      rfl
  | cons item rest ih =>
    have hnew : item.1 ∉ out.keys := by
      intro hmem
      have hapart := (List.nodup_append.mp hdistinct).2.2
      exact hapart item.1 hmem item.1 List.mem_cons_self rfl
    -- the map after the first put, to which the induction hypothesis applies
    let next (v : Value) : TypedMap := { out with entries := out.entries ++ [(item.1, v)] }
    have hput (v : Value) (s : TypedMap) :
        out.put item.1 v = .ok s ↔ out.rejection? item.1 v = none ∧ s = next v := by
      rw [put_eq_ok_iff, Entries.insert_of_not_mem hnew]
      exact ⟨fun h => h.2, fun h => ⟨hthawed, h⟩⟩
    have hkeys (v : Value) : ((next v).keys ++ Entries.keys rest).Nodup := by
      have hnext : (next v).keys = out.keys ++ [item.1] := List.map_append
      rw [hnext, List.append_assoc]
      exact hdistinct
    have hrest (v : Value) :
        rest.foldlM (fun (out : TypedMap) item => out.store item.1 (convert item)) (next v) =
            .ok after ↔
          ∃ es, List.Forall₂ (fun item e => e.1 = item.1 ∧ convert item = .ok e.2 ∧
              out.rejection? e.1 e.2 = none) rest es ∧
            after = { next v with entries := (next v).entries ++ es } := ih hthawed (hkeys v)
    have hentries (v : Value) (es : List (String × Value)) :
        (next v).entries ++ es = out.entries ++ (item.1, v) :: es := List.append_assoc _ _ _
    rw [List.foldlM_cons, bind_eq_ok_iff]
    constructor
    · rintro ⟨s, hstore, hfold⟩
      obtain ⟨v, hv, hs⟩ := store_eq_ok_iff.mp hstore
      obtain ⟨haccepted, rfl⟩ := (hput v s).mp hs
      obtain ⟨es, hes, rfl⟩ := (hrest v).mp hfold
      refine ⟨(item.1, v) :: es, .cons ⟨rfl, hv, haccepted⟩ hes, ?_⟩
      rw [hentries]
    · rintro ⟨_, hall, rfl⟩
      obtain ⟨⟨key, v⟩, es, ⟨rfl, hv, haccepted⟩, hes, rfl⟩ := List.forall₂_cons_left_iff.mp hall
      refine ⟨next v, store_eq_ok_iff.mpr ⟨v, hv, (hput v _).mpr ⟨haccepted, rfl⟩⟩, ?_⟩
      refine (hrest v).mpr ⟨es, hes, ?_⟩
      rw [hentries]

/-- The same for a map that starts out empty. -/
theorem TypedMap.build_eq_ok_iff {α : Type} {items : List (String × α)}
    {convert : String × α → Except Error Value} {t : Ty} {after : TypedMap}
    (hdistinct : Entries.Distinct items) :
    items.foldlM (fun (out : TypedMap) item => out.store item.1 (convert item)) (.empty t) =
        .ok after ↔
      ∃ es, List.Forall₂ (fun item e => e.1 = item.1 ∧ convert item = .ok e.2 ∧
          (empty t).rejection? e.1 e.2 = none) items es ∧
        after = ⟨t, es, false⟩ := by
  have hkeys : ((empty t).keys ++ Entries.keys items).Nodup := hdistinct
  exact storeAll_eq_ok_iff rfl hkeys

/-- What the value of an entry is converted to; a map without a constraint takes any. -/
def Ty.ofConstraint (constraint : Option Ty) : Ty := constraint.getD .any

/-- Values of `any` and of `json` are not converted, but what a put accepts among them is what the
conversion would have given. -/
theorem Ty.decode_of_taken {t : Ty} (ht : (t.isAny || t.isJson) = true) (depth : Depth)
    (v w : Value) :
    (v = w ∧ t.admits w = true) ↔ (t.decode depth v = .ok w ∧ t.admits w = true) := by
  rcases Bool.or_eq_true_iff.mp ht with hany | hjson
  · rw [eq_any_of_isAny hany]
    exact and_congr_left fun _ => ⟨congrArg _, Except.ok.inj⟩
  · -- for `json` the conversion is the check itself
    rw [eq_json_of_isJson hjson, decode]
    constructor
    · rintro ⟨rfl, hadmits⟩
      exact ⟨if_pos hadmits, hadmits⟩
    · rintro ⟨h, hadmits⟩
      split at h
      · exact ⟨Except.ok.inj h, hadmits⟩
      · cases h

/-- **A map is converted key by key**, each value to the type of the constraint. -/
theorem TypedMap.decode_eq_ok_iff {constraint : Option Ty} {depth : Depth} {source out : TypedMap}
    (hobject : (Value.map source).asObject? = some source)
    (hdistinct : Entries.Distinct source.entries) :
    decode constraint depth (.map source) = .ok out ↔
      ∃ inner, depth.enter = .ok inner ∧ ∃ es,
        List.Forall₂ (fun e e' => e'.1 = e.1 ∧
          (Ty.ofConstraint constraint).decode inner e.2 = .ok e'.2 ∧
          (Ty.ofConstraint constraint).admits e'.2 = true) source.entries es ∧
        out = ⟨.map constraint, es, false⟩ := by
  -- for either kind of constraint, what remains to be seen is what the step asks of an entry
  have hloop (convert : Depth → Value → Except Error Value)
      (hstep : ∀ inner v w key, (convert inner v = .ok w ∧
          (empty (.map constraint)).rejection? key w = none) ↔
        ((Ty.ofConstraint constraint).decode inner v = .ok w ∧
          (Ty.ofConstraint constraint).admits w = true)) :
      decodeWith constraint convert depth (.map source) = .ok out ↔
        ∃ inner, depth.enter = .ok inner ∧ ∃ es,
          List.Forall₂ (fun e e' => e'.1 = e.1 ∧
            (Ty.ofConstraint constraint).decode inner e.2 = .ok e'.2 ∧
            (Ty.ofConstraint constraint).admits e'.2 = true) source.entries es ∧
          out = ⟨.map constraint, es, false⟩ := by
    unfold decodeWith
    rw [hobject]
    refine bind_eq_ok_iff.trans (exists_congr fun inner => and_congr_right fun _ => ?_)
    refine (build_eq_ok_iff hdistinct).trans (exists_congr fun es => and_congr_left fun _ => ?_)
    simp only [hstep]
  cases constraint with
  | none =>
    refine hloop (fun _ => .ok) fun inner v w key => ?_
    rw [rejection?_openMap rfl]
    exact and_congr Iff.rfl (iff_of_true rfl rfl)
  | some t =>
    refine hloop _ fun inner v w key => ?_
    rw [rejection?_mapOf rfl]
    split
    · rename_i htaken
      refine Iff.trans (and_congr_left fun _ => ?_) (Ty.decode_of_taken htaken inner v w)
      exact ⟨Except.ok.inj, congrArg _⟩
    · exact Iff.rfl

/-- The entry under a declared key has to be of the declared type. -/
theorem RecordTy.typeForKey?_of_mem {r : RecordTy} (hdistinct : Entries.Distinct r.fields)
    {f : String × Field} (hf : f ∈ r.fields) : r.typeForKey? f.1 = some f.2.ty := by
  unfold typeForKey? field?
  rw [hdistinct.lookup_eq_some hf]

/-- **A record is converted field by field**, an absent one to its default. -/
theorem RecordTy.decode_eq_ok_iff {r : RecordTy} {depth : Depth} {source out : TypedMap}
    (hobject : (Value.map source).asObject? = some source) (hdistinct : Entries.Distinct r.fields) :
    r.decode depth (.map source) = .ok out ↔
      ∃ inner, depth.enter = .ok inner ∧ ∃ es,
        List.Forall₂ (fun f e => e.1 = f.1 ∧ f.2.decode inner (source.get? f.1) = .ok e.2 ∧
          f.2.ty.admits e.2 = true) r.fields es ∧
        out = ⟨.record r, es, false⟩ := by
  -- the empty record is asked, since only the type of the map is looked at
  have hput (f) (hf : f ∈ r.fields) (v : Value) :
      (TypedMap.empty (.record r)).rejection? f.1 v = none ↔ f.2.ty.admits v = true := by
    rw [TypedMap.rejection?_record rfl, typeForKey?_of_mem hdistinct hf]
    simp
  rw [decode_eq, hobject]
  refine bind_eq_ok_iff.trans (exists_congr fun inner => and_congr_right fun _ => ?_)
  refine (TypedMap.build_eq_ok_iff hdistinct).trans
    (exists_congr fun es => and_congr_left fun _ => ?_)
  constructor
  · intro h
    refine forall₂_imp_of_mem h fun f hf e _ ⟨hkey, hdecode, haccepted⟩ => ?_
    exact ⟨hkey, hdecode, (hput f hf e.2).mp (hkey ▸ haccepted)⟩
  · intro h
    refine forall₂_imp_of_mem h fun f hf e _ ⟨hkey, hdecode, hadmits⟩ => ?_
    exact ⟨hkey, hdecode, hkey ▸ (hput f hf e.2).mpr hadmits⟩

/-! ## Back to JSON -/

/-- A scalar passes to JSON as it is or not at all. -/
theorem Scalar.encode_eq_ok_iff {s : Scalar} {allowed : Bool} {w : Value} :
    s.encode allowed = .ok w ↔ (allowed = true ∧ s.kind.isJson = true) ∧ w = .scalar s := by
  unfold encode
  rw [← Bool.and_eq_true_iff]
  split
  · rename_i hpass
    exact ⟨fun h => ⟨hpass, (Except.ok.inj h).symm⟩, fun h => h.2 ▸ rfl⟩
  · rename_i hpass
    exact iff_of_false (fun h => nomatch h) fun h => hpass h.1

/-- An element becomes what an entry of a JSON object would become. -/
theorem Value.encodeEntry_of_encodeElement {v w : Value} {allowed : Bool} {depth : Depth}
    (h : v.encodeElement allowed depth = .ok w) : v.encodeEntry .json depth = .ok w := by
  cases v with
  | scalar s =>
    obtain ⟨⟨-, hjson⟩, hw⟩ := Scalar.encode_eq_ok_iff.mp h
    exact Scalar.encode_eq_ok_iff.mpr ⟨⟨rfl, hjson⟩, hw⟩
  | _ => exact h

/-- Only scalars are told apart by where they stand. -/
theorem Value.encodeElement_eq_encodeEntry {v : Value} {allowed : Bool}
    (h : ∀ s, v = .scalar s → allowed = true) (depth : Depth) :
    v.encodeElement allowed depth = v.encodeEntry .json depth := by
  cases v with
  | scalar s =>
    rw [h s rfl]
    rfl
  | _ => rfl

/-- **The copy of an array of scalars is what its loop would give**, if the elements are admitted
and in the form in which they are stored. -/
theorem TypedArray.encode_eq_loop {a : TypedArray}
    (hadmitted : ∀ v ∈ a.toList, a.elementType.admits v = true)
    (hnormal : ∀ v ∈ a.toList, a.elementType.normalize v = v) (depth : Depth) :
    a.encode depth = depth.enter >>= fun inner =>
      a.toList.mapM (·.encodeElement a.elementType.isJsonCompatible inner) >>= fun ws =>
        .ok (.ofBoxed .json ws) := by
  -- the pass that copies scalars gives what the loop would give: each of them is JSON and of the
  -- declared kind
  have hcopy (k : ScalarKind) (hk : a.elementType = .scalar k) (hjson : k.isJson = true)
      (inner : Depth) :
      a.toList.mapM (·.encodeElement a.elementType.isJsonCompatible inner) = .ok a.toList := by
    refine mapM_eq_ok_iff.mpr (List.forall₂_same.mpr fun v hv => ?_)
    have hadmits := hadmitted v hv
    have hsame := hnormal v hv
    rw [hk] at hadmits hsame ⊢
    obtain ⟨s, rfl, hs⟩ := Ty.exists_scalar_of_admits hadmits
    have hkind : s.kind = k := by
      rw [← Scalar.kind_normalize hs, Value.scalar.inj hsame]
    exact Scalar.encode_eq_ok_iff.mpr ⟨⟨rfl, hkind ▸ hjson⟩, rfl⟩
  rw [encode_eq]
  refine bind_congr fun inner => ?_
  split
  -- every element type without such a pass has the loop already
  case h_5 => rfl
  all_goals
    rename_i hk
    rw [hcopy _ hk rfl inner]
    rfl

/-- **An array is converted element by element**, to an array of `json`. -/
theorem TypedArray.encode_eq_ok_iff {a out : TypedArray} {depth : Depth}
    (hadmitted : ∀ v ∈ a.toList, a.elementType.admits v = true)
    (hnormal : ∀ v ∈ a.toList, a.elementType.normalize v = v) :
    a.encode depth = .ok out ↔
      ∃ inner, depth.enter = .ok inner ∧ ∃ ws,
        List.Forall₂ (fun v w => v.encodeElement a.elementType.isJsonCompatible inner = .ok w)
          a.toList ws ∧
        out = .ofBoxed .json ws := by
  rw [encode_eq_loop hadmitted hnormal, bind_eq_ok_iff]
  refine exists_congr fun inner => and_congr_right fun _ => ?_
  rw [bind_eq_ok_iff]
  refine exists_congr fun ws => and_congr mapM_eq_ok_iff ?_
  exact ⟨fun h => (Except.ok.inj h).symm, fun h => h ▸ rfl⟩

/-- **A map is rebuilt key by key.** -/
theorem TypedMap.rebuild_eq_ok_iff {m out : TypedMap} {target : Ty} {depth : Depth}
    (hdistinct : Entries.Distinct m.entries) :
    m.rebuild target depth = .ok out ↔
      ∃ inner, depth.enter = .ok inner ∧ ∃ es,
        List.Forall₂ (fun e e' => e'.1 = e.1 ∧ e.2.encodeEntry target inner = .ok e'.2 ∧
          (empty target).rejection? e'.1 e'.2 = none) m.entries es ∧
        out = ⟨target, es, false⟩ := by
  rw [rebuild_eq, bind_eq_ok_iff]
  exact exists_congr fun inner => and_congr_right fun _ => build_eq_ok_iff hdistinct

/-- What an entry comes out as is JSON, so a JSON object accepts it. -/
theorem Value.admits_json_of_encodeEntry {v w : Value} {depth : Depth}
    (h : v.encodeEntry .json depth = .ok w) : Ty.json.admits w = true := by
  rw [← encodeElement_eq_encodeEntry (fun _ _ => rfl)] at h
  exact admits_json_of_encodeElement h

/-- A JSON object is passed on. -/
theorem TypedMap.encodeEntry_object {m : TypedMap} (h : m.ty = .json) (target : Ty)
    (depth : Depth) :
    (Value.map m).encodeEntry target depth = .ok (.map m) := by
  show m.encode target depth = .ok (.map m)
  rw [encode_eq, h]

/-- A map or a record is rebuilt as a JSON object. -/
theorem TypedMap.encodeEntry_eq_rebuild {m : TypedMap} (hmapping : m.ty.isMapping = true)
    (hjson : m.ty.isJson = false) (depth : Depth) :
    (Value.map m).encodeEntry .json depth = (m.rebuild .json depth).map .map := by
  show m.encode .json depth = _
  rw [encode_eq]
  cases hty : m.ty with
  | map constraint => rfl
  | record r => rfl
  | json =>
    rw [hty] at hjson
    cases hjson
  | _ =>
    rw [hty] at hmapping
    cases hmapping

/-- Inside a container it becomes what it becomes on its own. -/
theorem TypedMap.encodeRecord_eq_ok_iff {m out : TypedMap} {depth : Depth}
    (hmapping : m.ty.isMapping = true) (hjson : m.ty.isJson = false) :
    (Value.map m).encodeRecord depth = .ok out ↔
      (Value.map m).encodeEntry .json depth = .ok (.map out) := by
  have hrecord : (Value.map m).encodeRecord depth = m.rebuild .json depth := if_pos hmapping
  rw [encodeEntry_eq_rebuild hmapping hjson, hrecord, map_eq_ok_iff]
  constructor
  · intro h
    exact ⟨out, h, rfl⟩
  · rintro ⟨out', h, heq⟩
    cases heq
    exact h

/-- **A map or a record becomes a JSON object, key by key.** -/
theorem TypedMap.encodeEntry_eq_ok_iff {m : TypedMap} {depth : Depth} {w : Value}
    (hmapping : m.ty.isMapping = true) (hjson : m.ty.isJson = false)
    (hdistinct : Entries.Distinct m.entries) :
    (Value.map m).encodeEntry .json depth = .ok w ↔
      ∃ inner, depth.enter = .ok inner ∧ ∃ es,
        List.Forall₂ (fun e e' => e'.1 = e.1 ∧ e.2.encodeEntry .json inner = .ok e'.2)
          m.entries es ∧
        w = .map ⟨.json, es, false⟩ := by
  rw [encodeEntry_eq_rebuild hmapping hjson, map_eq_ok_iff]
  constructor
  · rintro ⟨out, hout, rfl⟩
    obtain ⟨inner, henter, es, hes, rfl⟩ := (rebuild_eq_ok_iff hdistinct).mp hout
    exact ⟨inner, henter, es, hes.imp fun e e' h => ⟨h.1, h.2.1⟩, rfl⟩
  · rintro ⟨inner, henter, es, hes, rfl⟩
    refine ⟨_, (rebuild_eq_ok_iff hdistinct).mpr ⟨inner, henter, es, ?_, rfl⟩, rfl⟩
    -- what a conversion gave is JSON, so the JSON object under construction takes it
    refine hes.imp fun e e' ⟨hkey, hentry⟩ => ⟨hkey, hentry, ?_⟩
    exact (rejection?_json rfl).mpr (Value.admits_json_of_encodeEntry hentry)

end TypedJson
