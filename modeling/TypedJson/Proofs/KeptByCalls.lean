import TypedJson.Proofs.Building
import TypedJson.Proofs.Kept
import TypedJson.Proofs.Session

/-!
# TypedJson — what a session keeps

Besides writing, the library has a few ways to make a container that go past the checks: the copies
of an array that is converted to JSON, the values of a document, the zero of a record type. A
property that these have as well holds of all that a session ever holds or answers:

* **`KeptByCalls`** — such a property;
* **`KeptByCalls.step`** — one call keeps it;
* **`KeptByCalls.run`** — a whole session keeps it.

The types that the caller passes are not checked by anyone, so a second predicate `D` says what is
asked of them. The conversions to JSON are the part with an argument: what goes into an unchecked
array there is JSON because it was converted, or because it is a scalar.
-/

namespace TypedJson

/-- A property of values that no call takes away. Where a type stands behind a container that is not
checked, `D` is what has to hold of the type. -/
structure KeptByCalls (P : Value → Prop) (D : Ty → Prop) : Prop extends KeptByWrites P where
  emptyBoxed : ∀ t, P (.array (.emptyBoxed t))
  ofJson : ∀ vs, (∀ v ∈ vs, Ty.json.admits v = true) → P (.array (.ofBoxed .json vs))
  /-- The elements of an array of scalars as an array of `json`. -/
  copied : ∀ {a : TypedArray} {k : ScalarKind}, P (.array a) → a.elementType = .scalar k →
    P (.array (.ofBoxed .json a.toList))
  object : ∀ entries : List (String × Value), (∀ e ∈ entries, Ty.json.admits e.2 = true) →
    P (.map ⟨.json, entries, false⟩)
  zeroRecord : ∀ r, D (.record r) →
    P (.map ⟨.record r, r.fields.map fun f => (f.1, f.2.default), false⟩)
  remove : ∀ {m after : TypedMap} {key : String}, P (.map m) → m.remove key = .ok after →
    P (.map after)
  freezeArray : ∀ {a : TypedArray}, P (.array a) → P (.array a.freeze)
  freezeMap : ∀ {m : TypedMap}, P (.map m) → P (.map m.freeze)

/-- What is asked of a type that the caller passes: `D` of all of its parts, and `P` of all that is
in the defaults. -/
structure Ty.Passable (P : Value → Prop) (D : Ty → Prop) (t : Ty) : Prop where
  parts : t.Everywhere D
  defaults : t.FieldsSatisfy fun f => f.default.Everywhere P

/-- The values of an answer have the property everywhere inside. -/
def Answer.Everywhere (P : Value → Prop) : Answer → Prop
  | .values vs => ∀ v ∈ vs, v.Everywhere P
  | _ => True

/-- A document is JSON. -/
theorem Json.admits_toValue (j : Json) : Ty.json.admits j.toValue = true := by
  cases j <;> rfl

namespace KeptByCalls

variable {P : Value → Prop} {D : Ty → Prop} (hP : KeptByCalls P D)

include hP

/-! ## Making values -/

/-- The zero of a type has the property: zeros of containers are fresh ones, and the zero of a
record is put together from its defaults. -/
theorem everywhere_zero {t : Ty} (ht : t.Passable P D) : t.zero.Everywhere P := by
  induction t with
  | scalar k => exact hP.everywhere_scalar _
  | json => exact hP.everywhere_null
  | any => exact hP.everywhere_null
  | null => exact hP.everywhere_null
  | union members nullable ih =>
    rw [Ty.zero]
    split
    · exact hP.everywhere_null
    · -- the zero of the first member, if there is one
      cases members with
      | nil => exact hP.everywhere_null
      | cons t rest =>
        have hmem : t ∈ t :: rest := List.mem_cons_self
        exact ih t hmem ⟨ht.parts.member hmem, ht.defaults.member hmem⟩
  | array element _ => exact hP.everywhere_empty element
  | openMap => exact hP.everywhere_emptyMap _
  | mapOf t _ => exact hP.everywhere_emptyMap _
  | record r _ _ =>
    refine Value.everywhere_map.mpr ⟨hP.zeroRecord r ht.parts.self, fun e he => ?_⟩
    obtain ⟨f, hf, rfl⟩ := List.mem_map.mp he
    exact ht.defaults.self f hf

/-- What is read from a document has the property: its arrays and objects are fresh. -/
theorem everywhere_toValue (j : Json) : j.toValue.Everywhere P := by
  induction j with
  | null => exact hP.everywhere_null
  | bool b => exact hP.everywhere_scalar _
  | number n => exact hP.everywhere_scalar _
  | string s => exact hP.everywhere_scalar _
  | array items ih =>
    rw [Json.toValue, Json.toValues_eq_map]
    -- the array is not checked element by element, but all of its elements are documents
    refine Value.everywhere_array.mpr ⟨hP.ofJson _ fun v hv => ?_, fun v hv => ?_⟩
    · obtain ⟨item, -, rfl⟩ := List.mem_map.mp hv
      exact item.admits_toValue
    · obtain ⟨item, hitem, rfl⟩ := List.mem_map.mp hv
      exact ih item hitem
  | object entries ih =>
    rw [Json.toValue, Json.toEntries_eq_map]
    refine Value.everywhere_map.mpr ⟨hP.object _ fun e he => ?_, fun e he => ?_⟩
    · obtain ⟨entry, -, rfl⟩ := List.mem_map.mp he
      exact entry.2.admits_toValue
    · obtain ⟨entry, hentry, rfl⟩ := List.mem_map.mp he
      exact ih entry hentry

theorem everywhere_fresh {f : Fresh} (hf : ∀ t ∈ f.types, t.Passable P D) :
    f.value.Everywhere P := by
  cases f with
  | null => exact hP.everywhere_null
  | scalar s => exact hP.everywhere_scalar s
  | emptyArray t => exact hP.everywhere_empty t
  | emptyBoxed t => exact Value.everywhere_array.mpr ⟨hP.emptyBoxed t, by simp⟩
  | emptyMap t => exact hP.everywhere_emptyMap t
  | zero t => exact hP.everywhere_zero (hf t (List.mem_singleton_self t))
  | document j => exact hP.everywhere_toValue j

/-! ## Freezing -/

/-- Freezing keeps the property, container by container. -/
theorem everywhere_freeze {v : Value} (hv : v.Everywhere P) : v.freeze.Everywhere P := by
  induction v with
  | null => exact hv
  | scalar s => exact hv
  | array a ih =>
    obtain ⟨hself, hitems⟩ := Value.everywhere_array.mp hv
    refine Value.everywhere_array.mpr ⟨hP.freezeArray hself, fun w hw => ?_⟩
    rw [TypedArray.toList_freeze] at hw
    obtain ⟨v, hv, rfl⟩ := List.mem_map.mp hw
    exact ih v hv (hitems v hv)
  | map m ih =>
    obtain ⟨hself, hentries⟩ := Value.everywhere_map.mp hv
    refine Value.everywhere_map.mpr ⟨hP.freezeMap hself, fun e he => ?_⟩
    rw [TypedMap.freeze_eq] at he
    obtain ⟨entry, hentry, rfl⟩ := List.mem_map.mp he
    exact ih entry hentry (hentries entry hentry)

/-! ## Conversion to JSON -/

/-- The two conversions of a value, as an element and as an entry, keep the property. -/
theorem everywhere_encode {v : Value} (hv : v.Everywhere P) :
    (∀ allowed depth w, v.encodeElement allowed depth = .ok w → w.Everywhere P) ∧
      ∀ target depth w, v.encodeEntry target depth = .ok w → w.Everywhere P := by
  induction v with
  | null =>
    constructor <;> intro _ _ w h <;> cases h <;> exact hP.everywhere_null
  | scalar s =>
    have hscalar (allowed w) (h : s.encode allowed = .ok w) : w.Everywhere P := by
      unfold Scalar.encode at h
      split at h <;> cases h
      exact hP.everywhere_scalar s
    exact ⟨fun allowed _ w h => hscalar allowed w h, fun _ _ w h => hscalar true w h⟩
  | array a ih =>
    obtain ⟨hself, hitems⟩ := Value.everywhere_array.mp hv
    have harray (depth w) (h : (a.encode depth).map Value.array = .ok w) : w.Everywhere P := by
      obtain ⟨out, hout, rfl⟩ := map_eq_ok_iff.mp h
      obtain ⟨inner, -, ⟨⟨k, hk⟩, rfl⟩ | ⟨ws, hws, rfl⟩⟩ := TypedArray.encode_eq_ok hout
      · exact Value.everywhere_array.mpr ⟨hP.copied hself hk, hitems⟩
      · -- each element of the result is a converted one, which makes it JSON
        refine Value.everywhere_array.mpr ⟨hP.ofJson ws fun w hw => ?_, fun w hw => ?_⟩
        · obtain ⟨x, -, hx⟩ := exists_mem_of_mapM hws hw
          exact Value.admits_json_of_encodeElement hx
        · obtain ⟨x, hxmem, hx⟩ := exists_mem_of_mapM hws hw
          exact (ih x hxmem (hitems x hxmem)).1 _ _ w hx
    exact ⟨fun _ depth w h => harray depth w h, fun _ depth w h => harray depth w h⟩
  | map m ih =>
    obtain ⟨hself, hentries⟩ := Value.everywhere_map.mp hv
    have hmap (target depth w) (h : m.encode target depth = .ok w) : w.Everywhere P := by
      rcases TypedMap.encode_eq_ok h with ⟨-, rfl⟩ | ⟨out, hout, rfl⟩
      · -- a JSON object is passed on as it is
        exact hv
      · obtain ⟨inner, -, hfold⟩ := TypedMap.rebuild_eq_ok hout
        exact hP.everywhere_collectEntries (hP.everywhere_emptyMap target)
          (fun e he w hw => (ih e he (hentries e he)).2 target inner w hw) hfold
    exact ⟨fun _ depth w h => hmap .json depth w h, fun target depth w h => hmap target depth w h⟩

theorem everywhere_encodeArray {a out : TypedArray} {depth : Depth}
    (ha : (Value.array a).Everywhere P) (h : a.encode depth = .ok out) :
    (Value.array out).Everywhere P := by
  have helement : (Value.array a).encodeElement true depth = .ok (.array out) :=
    map_eq_ok_iff.mpr ⟨out, h, rfl⟩
  exact (hP.everywhere_encode ha).1 true depth _ helement

/-- A rebuilt object has the property: it is filled with encoded entries. -/
theorem everywhere_rebuild {m out : TypedMap} {target : Ty} {depth : Depth}
    (hm : (Value.map m).Everywhere P) (h : m.rebuild target depth = .ok out) :
    (Value.map out).Everywhere P := by
  obtain ⟨-, hentries⟩ := Value.everywhere_map.mp hm
  obtain ⟨inner, -, hfold⟩ := TypedMap.rebuild_eq_ok h
  exact hP.everywhere_collectEntries (hP.everywhere_emptyMap target)
    (fun e he w hw => (hP.everywhere_encode (hentries e he)).2 target inner w hw) hfold

/-! ## Calls -/

/-- A field that is read was there, or is `null`. -/
theorem everywhere_getField {v : Value} {key : String} (hv : v.Everywhere P) :
    (v.getField key).Everywhere P := by
  unfold Value.getField
  split
  · rename_i m hm
    obtain rfl := Value.eq_map_of_asObject? hm
    cases hget : m.get? key with
    | none => exact hP.everywhere_null
    | some x => exact (Value.everywhere_map.mp hv).2 _ (Entries.mem_of_lookup hget)
  · exact hP.everywhere_null

theorem everywhere_read {r : Reading} (hr : ∀ t ∈ r.types, t.Passable P D) {v : Value}
    (hv : v.Everywhere P) {vs : List Value} (h : r.run v = .ok vs) : ∀ w ∈ vs, w.Everywhere P := by
  -- the entry points of the conversion differ in the target alone
  have hdecode (t : Ty) (ht : t.Passable P D) (limit)
      (h : Reading.single (t.decode (.root limit) v) = .ok vs) : ∀ w ∈ vs, w.Everywhere P := by
    obtain ⟨w, hw, rfl⟩ := Reading.single_eq_ok h
    exact List.forall_mem_singleton.mpr (hP.decode ht.defaults hv hw)
  cases r with
  | copy =>
    cases h
    exact List.forall_mem_singleton.mpr hv
  | item index =>
    obtain ⟨a, rfl, h⟩ := exists_array_of_applicable h
    cases h
    intro w hw
    exact (Value.everywhere_array.mp hv).2 w (List.mem_of_getElem? (Option.mem_toList.mp hw))
  | itemChecked index =>
    obtain ⟨a, rfl, h⟩ := exists_array_of_applicable h
    obtain ⟨w, hw, rfl⟩ := Reading.single_eq_ok h
    exact List.forall_mem_singleton.mpr
      ((Value.everywhere_array.mp hv).2 w (TypedArray.mem_of_get hw))
  | items =>
    obtain ⟨a, rfl, h⟩ := exists_array_of_applicable h
    cases h
    exact (Value.everywhere_array.mp hv).2
  | entry key =>
    obtain ⟨m, rfl, h⟩ := exists_map_of_applicable h
    cases h
    intro w hw
    exact (Value.everywhere_map.mp hv).2 _ (Entries.mem_of_lookup (Option.mem_toList.mp hw))
  | entries =>
    obtain ⟨m, rfl, h⟩ := exists_map_of_applicable h
    cases h
    intro w hw
    obtain ⟨e, he, rfl⟩ := List.mem_map.mp hw
    exact (Value.everywhere_map.mp hv).2 e he
  | element index =>
    obtain ⟨w, hw, rfl⟩ := Reading.single_eq_ok h
    refine List.forall_mem_singleton.mpr ?_
    cases v with
    | array a =>
      have hmem : w ∈ a.toList := TypedArray.mem_of_get (mapError_eq_ok_iff.mp hw)
      exact (Value.everywhere_array.mp hv).2 w hmem
    | _ =>
      -- null is what everything but an array answers
      cases hw
      exact hP.everywhere_null
  | field key =>
    cases h
    exact List.forall_mem_singleton.mpr (hP.everywhere_getField hv)
  | decode target limit => exact hdecode target (hr _ (List.mem_singleton_self _)) limit h
  | decodeRecord target limit =>
    exact hdecode (.record target) (hr _ (List.mem_singleton_self _)) limit h
  | decodeArray elementType limit =>
    exact hdecode (.array elementType) (hr _ (List.mem_singleton_self _)) limit h
  | decodeMap constraint limit =>
    exact hdecode (.map constraint) (hr _ (List.mem_singleton_self _)) limit h
  | encodeArray limit =>
    obtain ⟨a, rfl, h⟩ := exists_array_of_applicable h
    obtain ⟨w, hw, rfl⟩ := Reading.single_eq_ok h
    obtain ⟨out, hout, rfl⟩ := map_eq_ok_iff.mp hw
    exact List.forall_mem_singleton.mpr (hP.everywhere_encodeArray hv hout)
  | encodeMap target limit =>
    obtain ⟨m, rfl, h⟩ := exists_map_of_applicable h
    obtain ⟨w, hw, rfl⟩ := Reading.single_eq_ok h
    obtain ⟨out, hout, rfl⟩ := map_eq_ok_iff.mp hw
    exact List.forall_mem_singleton.mpr (hP.everywhere_rebuild hv hout)
  | encodeMember target limit =>
    obtain ⟨w, hw, rfl⟩ := Reading.single_eq_ok h
    exact List.forall_mem_singleton.mpr
      ((hP.everywhere_encode hv).2 _ _ _ (Value.encodeMember_eq_ok hw))
  | encodeRecord limit =>
    obtain ⟨w, hw, rfl⟩ := Reading.single_eq_ok h
    obtain ⟨out, hout, rfl⟩ := map_eq_ok_iff.mp hw
    obtain ⟨m, rfl, hm⟩ := Value.encodeRecord_eq_ok hout
    exact List.forall_mem_singleton.mpr (hP.everywhere_rebuild hv hm)

theorem everywhere_remove {m after : TypedMap} {key : String}
    (hm : (Value.map m).Everywhere P) (h : m.remove key = .ok after) :
    (Value.map after).Everywhere P := by
  obtain ⟨hself, hentries⟩ := Value.everywhere_map.mp hm
  refine Value.everywhere_map.mpr ⟨hP.remove hself h, fun e he => ?_⟩
  obtain ⟨-, rfl⟩ := TypedMap.remove_eq_ok_iff.mp h
  exact hentries e (Entries.mem_of_mem_erase he)

theorem everywhere_removeField {v after : Value} {key : String} (hv : v.Everywhere P)
    (h : v.removeField key = .ok after) : after.Everywhere P := by
  rw [Value.removeField_eq] at h
  split at h
  · rename_i m hm
    obtain rfl := Value.eq_map_of_asObject? hm
    obtain ⟨n, hn, rfl⟩ := map_eq_ok_iff.mp h
    exact hP.everywhere_remove hv hn
  · -- nothing else has fields, and the call leaves it as it is
    cases h
    exact hv

/-- Setting a field keeps the property, also where it does nothing. -/
theorem everywhere_setField {v x after : Value} {key : String} (hv : v.Everywhere P)
    (hx : x.Everywhere P) (h : v.setField key x = .ok after) : after.Everywhere P := by
  rw [Value.setField_eq] at h
  split at h
  · rename_i m hm
    obtain rfl := Value.eq_map_of_asObject? hm
    obtain ⟨n, hn, rfl⟩ := map_eq_ok_iff.mp (mapError_eq_ok_iff.mp h)
    exact hP.everywhere_put hv hx hn
  · cases h
    exact hv

theorem everywhere_setElement {v x after : Value} {index : Int} (hv : v.Everywhere P)
    (hx : x.Everywhere P) (h : v.setElement index x = .ok after) : after.Everywhere P := by
  rw [Value.setElement_eq] at h
  split at h
  · split at h
    · -- the element is turned away before the write
      cases h
    · obtain ⟨b, hb, rfl⟩ := map_eq_ok_iff.mp (mapError_eq_ok_iff.mp h)
      exact hP.everywhere_set hv hx hb
  · cases h
    exact hv

omit hP in
theorem everywhere_get? {m : TypedMap} (hm : (Value.map m).Everywhere P) (key : String) :
    ∀ w ∈ (m.get? key).toList, w.Everywhere P := by
  intro w hw
  have hmem : (key, w) ∈ m.entries := Entries.mem_of_lookup (Option.mem_toList.mp hw)
  exact (Value.everywhere_map.mp hm).2 _ hmem

/-- An edit leaves a value with the property and hands out values with it. -/
theorem everywhere_edit {e : Edit} {v : Value} (hv : v.Everywhere P) {after : Value}
    {vs : List Value} (h : e.run v = .ok (after, vs)) :
    after.Everywhere P ∧ ∀ w ∈ vs, w.Everywhere P := by
  rw [Edit.run_eq] at h
  cases e with
  | freeze =>
    cases h
    exact ⟨hP.everywhere_freeze hv, List.forall_mem_nil _⟩
  | remove key =>
    obtain ⟨m, rfl, hrun⟩ := exists_map_of_applicable h
    obtain ⟨n, hn, hdone⟩ := bind_eq_ok_iff.mp hrun
    cases hdone
    exact ⟨hP.everywhere_remove hv (attempt_eq_ok_iff.mp hn), everywhere_get? hv key⟩
  | removeField key =>
    obtain ⟨w, hw, hdone⟩ := bind_eq_ok_iff.mp h
    cases hdone
    exact ⟨hP.everywhere_removeField hv (attempt_eq_ok_iff.mp hw), List.forall_mem_nil _⟩

/-- So does a write, given that the operand has the property. -/
theorem everywhere_write {c : Write} {v x : Value} (hv : v.Everywhere P) (hx : x.Everywhere P)
    {after : Value} {vs : List Value} (h : c.run v x = .ok (after, vs)) :
    after.Everywhere P ∧ ∀ w ∈ vs, w.Everywhere P := by
  rw [Write.run_eq] at h
  cases c with
  | set index =>
    obtain ⟨a, rfl, hrun⟩ := exists_array_of_applicable h
    obtain ⟨b, hb, hdone⟩ := bind_eq_ok_iff.mp hrun
    cases hdone
    exact ⟨hP.everywhere_set hv hx (attempt_eq_ok_iff.mp hb), List.forall_mem_nil _⟩
  | push =>
    obtain ⟨a, rfl, hrun⟩ := exists_array_of_applicable h
    obtain ⟨b, hb, hdone⟩ := bind_eq_ok_iff.mp hrun
    cases hdone
    exact ⟨hP.everywhere_set hv hx (attempt_eq_ok_iff.mp hb), List.forall_mem_nil _⟩
  | put key =>
    obtain ⟨m, rfl, hrun⟩ := exists_map_of_applicable h
    obtain ⟨n, hn, hdone⟩ := bind_eq_ok_iff.mp hrun
    cases hdone
    exact ⟨hP.everywhere_put hv hx (attempt_eq_ok_iff.mp hn), everywhere_get? hv key⟩
  | setField key =>
    obtain ⟨w, hw, hdone⟩ := bind_eq_ok_iff.mp h
    cases hdone
    exact ⟨hP.everywhere_setField hv hx (attempt_eq_ok_iff.mp hw), List.forall_mem_nil _⟩
  | setElement index =>
    obtain ⟨w, hw, hdone⟩ := bind_eq_ok_iff.mp h
    cases hdone
    exact ⟨hP.everywhere_setElement hv hx (attempt_eq_ok_iff.mp hw), List.forall_mem_nil _⟩
  | putEncoded key target limit =>
    obtain ⟨m, rfl, hrun⟩ := exists_map_of_applicable h
    obtain ⟨n, hn, hdone⟩ := bind_eq_ok_iff.mp hrun
    cases hdone
    refine ⟨?_, List.forall_mem_nil _⟩
    -- what is put is the encoding of the operand, not the operand
    rw [attempt_eq_ok_iff, TypedMap.putEncoded_eq] at hn
    obtain ⟨w, hw, hput⟩ := TypedMap.store_eq_ok_iff.mp hn
    exact hP.everywhere_put hv ((hP.everywhere_encode hx).2 _ _ _ hw) hput

/-! ## Sessions -/

omit hP in
theorem everywhere_valueAt {session : Session} (hs : ∀ v ∈ session, v.Everywhere P) {slot : Nat}
    {v : Value} (h : session.valueAt slot = .ok v) : v.Everywhere P :=
  hs v (List.mem_of_getElem? (applicable_eq_ok_iff.mp h))

omit hP in
theorem everywhere_answer {q : Question} {v : Value} {answer : Answer}
    (h : q.run v = .ok answer) : answer.Everywhere P := by
  cases q
  case toJson =>
    obtain ⟨j, -, rfl⟩ := map_eq_ok_iff.mp (attempt_eq_ok_iff.mp h)
    trivial
  case size =>
    cases v <;> cases h <;> trivial
  case hasKey | keys | isPacked =>
    obtain ⟨_, -, h⟩ := bind_eq_ok_iff.mp h
    cases h
    trivial
  all_goals
    cases h
    trivial

/-- **One call keeps the property**, in what it answers and in all slots. -/
theorem step {c : Call} (hc : ∀ t ∈ c.types, t.Passable P D) {session after : Session}
    {answer : Answer} (hs : ∀ v ∈ session, v.Everywhere P)
    (h : c.run session = .ok (answer, after)) :
    answer.Everywhere P ∧ ∀ v ∈ after, v.Everywhere P := by
  -- a call that only adds values needs to be looked at for these values alone
  have hadding (vs : List Value) (hvs : ∀ v ∈ vs, v.Everywhere P)
      (h : session.adding vs = (answer, after)) :
      answer.Everywhere P ∧ ∀ v ∈ after, v.Everywhere P := by
    cases h
    exact ⟨hvs, List.forall_mem_append.mpr ⟨hs, hvs⟩⟩
  -- the value in the changed slot takes the place of one that was there
  have hchanging (slot : Nat) (v : Value) (vs : List Value)
      (hkept : v.Everywhere P ∧ ∀ w ∈ vs, w.Everywhere P)
      (h : session.changing slot v vs = (answer, after)) :
      answer.Everywhere P ∧ ∀ v ∈ after, v.Everywhere P := by
    obtain ⟨hv, hvs⟩ := hkept
    cases h
    refine ⟨hvs, List.forall_mem_append.mpr ⟨fun w hw => ?_, hvs⟩⟩
    rcases List.mem_or_eq_of_mem_set hw with hold | rfl
    · exact hs w hold
    · exact hv
  rw [Call.run_eq] at h
  cases c with
  | fresh f =>
    have hvalue : f.value.Everywhere P := hP.everywhere_fresh hc
    exact hadding [f.value] (List.forall_mem_singleton.mpr hvalue) (Except.ok.inj h)
  | arrayOf elementType slots =>
    obtain ⟨vs, hvs, h⟩ := bind_eq_ok_iff.mp h
    obtain ⟨a, ha, h⟩ := bind_eq_ok_iff.mp h
    have hitems : ∀ v ∈ vs, v.Everywhere P := by
      intro v hv
      obtain ⟨slot, -, hslot⟩ := exists_mem_of_mapM hvs hv
      exact everywhere_valueAt hs hslot
    have harray : (Value.array a).Everywhere P :=
      hP.everywhere_pushAll (hP.everywhere_empty elementType) hitems (attempt_eq_ok_iff.mp ha)
    exact hadding _ (List.forall_mem_singleton.mpr harray) (Except.ok.inj h)
  | read r slot =>
    obtain ⟨v, hv, h⟩ := bind_eq_ok_iff.mp h
    obtain ⟨vs, hvs, h⟩ := bind_eq_ok_iff.mp h
    have hkept : ∀ w ∈ vs, w.Everywhere P := hP.everywhere_read hc (everywhere_valueAt hs hv) hvs
    exact hadding vs hkept (Except.ok.inj h)
  | edit e slot =>
    obtain ⟨v, hv, h⟩ := bind_eq_ok_iff.mp h
    obtain ⟨⟨w, vs⟩, he, h⟩ := bind_eq_ok_iff.mp h
    have hkept := hP.everywhere_edit (everywhere_valueAt hs hv) he
    exact hchanging slot w vs hkept (Except.ok.inj h)
  | write c slot operand =>
    obtain ⟨v, hv, h⟩ := bind_eq_ok_iff.mp h
    obtain ⟨x, hx, h⟩ := bind_eq_ok_iff.mp h
    obtain ⟨⟨w, vs⟩, hw, h⟩ := bind_eq_ok_iff.mp h
    have hkept := hP.everywhere_write (everywhere_valueAt hs hv) (everywhere_valueAt hs hx) hw
    exact hchanging slot w vs hkept (Except.ok.inj h)
  | ask q slot =>
    obtain ⟨v, -, h⟩ := bind_eq_ok_iff.mp h
    obtain ⟨a, ha, h⟩ := bind_eq_ok_iff.mp h
    cases h
    exact ⟨everywhere_answer ha, hs⟩
  | equal left right =>
    obtain ⟨v, -, h⟩ := bind_eq_ok_iff.mp h
    obtain ⟨w, -, h⟩ := bind_eq_ok_iff.mp h
    cases h
    exact ⟨trivial, hs⟩

/-- **A whole session keeps the property**: in every answer of every call, and in all slots. -/
theorem run {calls : List Call} (hcalls : ∀ c ∈ calls, ∀ t ∈ c.types, t.Passable P D)
    {session : Session} (hs : ∀ v ∈ session, v.Everywhere P) :
    (∀ answer, .ok answer ∈ (Session.run calls session).1 → answer.Everywhere P) ∧
      ∀ v ∈ (Session.run calls session).2, v.Everywhere P := by
  induction calls generalizing session with
  | nil => exact ⟨fun _ hanswer => (nomatch hanswer), hs⟩
  | cons c rest ih =>
    have hrest : ∀ c ∈ rest, ∀ t ∈ c.types, t.Passable P D :=
      fun c hc => hcalls c (List.mem_cons_of_mem _ hc)
    rw [Session.run, Call.step_eq]
    cases hrun : c.run session with
    | error refusal =>
      -- a refused call leaves the session as it was
      obtain ⟨hanswers, hlast⟩ := ih hrest hs
      refine ⟨fun answer hmem => ?_, hlast⟩
      rcases List.mem_cons.mp hmem with heq | hmem
      · cases heq
      · exact hanswers answer hmem
    | ok outcome =>
      obtain ⟨first, next⟩ := outcome
      obtain ⟨hfirst, hnext⟩ := hP.step (hcalls c List.mem_cons_self) hs hrun
      obtain ⟨hanswers, hlast⟩ := ih hrest hnext
      refine ⟨fun answer hmem => ?_, hlast⟩
      rcases List.mem_cons.mp hmem with heq | hmem
      · cases heq
        exact hfirst
      · exact hanswers answer hmem

end KeptByCalls

end TypedJson
