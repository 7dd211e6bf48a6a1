import TypedJson.Proofs.Mutation
import TypedJson.Proofs.Outcomes
import TypedJson.Proofs.Storage

/-!
# TypedJson — mutations as changes of plain lists

An array holds a list and a map holds an association list. This module says what a mutation is on
these lists, without containers, checks and storage, and that containers do nothing else:

* **`replacedAt`**, **`Entries.assigned`**, **`Entries.without`** — the changes of plain lists;
* **`Mutation.onElements`**, **`Mutation.onEntries`** — what a mutation that succeeds is on them;
* **`Mutation.run_array`**, **`Mutation.run_map`** — one mutation does this to a container;
* **`Value.mutate_simulates`** — from one mutation to sequences, where those that fail are left out;
* **`mutate_replays`** — so a container ends with what the replay of the successful mutations gives.
-/

namespace TypedJson

/-! ## Changes of plain lists -/

/-- The list with another element at a position, or with one more at the end where there is no such
position. -/
def replacedAt {α : Type} (xs : List α) (i : Nat) (x : α) : List α :=
  if i < xs.length then xs.set i x else xs ++ [x]

/-- Within bounds, writing is replacing, or appending at the end. -/
theorem writeAt_eq_replacedAt {α : Type} {xs : List α} {i : Nat} (h : i ≤ xs.length) (x : α) :
    writeAt xs i x = replacedAt xs i x := by
  unfold writeAt replacedAt
  by_cases hend : i = xs.length
  · rw [if_pos hend, if_neg (by omega)]
  · rw [if_neg hend, if_pos (by omega)]

namespace Entries

variable {α : Type}

/-- The association list with a value under a key: in the place that the key has, or at the end. -/
def assigned (es : Entries α) (key : String) (a : α) : Entries α :=
  if key ∈ keys es then es.map fun e => if e.1 = key then (key, a) else e else es ++ [(key, a)]

/-- The association list without a key. -/
def without (es : Entries α) (key : String) : Entries α := es.filter (·.1 ≠ key)

/-- Nothing is assigned where the key is not there. -/
theorem map_assign_of_not_mem {es : Entries α} {key : String} (h : key ∉ keys es) (a : α) :
    (es.map fun e => if e.1 = key then (key, a) else e) = es := by
  refine (List.map_congr_left fun e he => ?_).trans (List.map_id' es)
  have hmem : e.1 ∈ keys es := List.mem_map_of_mem he
  exact if_neg fun heq => h (by rwa [heq] at hmem)

/-- Where keys are distinct, the first entry under a key is the only one. -/
theorem insert_eq_assigned {es : Entries α} (hdistinct : Distinct es) (key : String) (a : α) :
    insert es key a = es.assigned key a := by
  unfold assigned
  split
  · rename_i hmem
    induction es with
    | nil => cases hmem
    | cons e rest ih =>
      obtain ⟨k, b⟩ := e
      obtain ⟨habsent, hrest⟩ := List.nodup_cons.mp hdistinct
      rw [insert, List.map_cons]
      by_cases hkey : key = k
      · subst hkey
        -- the key was found here, so it is not in the rest, which therefore stays
        rw [if_pos rfl, if_pos rfl, map_assign_of_not_mem habsent]
      · have hmemRest : key ∈ keys rest := (List.mem_cons.mp hmem).resolve_left hkey
        rw [if_neg hkey, if_neg (Ne.symm hkey), ih hrest hmemRest]
  · rename_i habsent
    exact insert_of_not_mem habsent a

/-- With distinct keys, taking out the first entry of a key takes out all of them. -/
theorem erase_eq_without {es : Entries α} (hdistinct : Distinct es) (key : String) :
    erase es key = es.without key := by
  induction es with
  | nil => rfl
  | cons e rest ih =>
    obtain ⟨k, b⟩ := e
    obtain ⟨habsent, hrest⟩ := List.nodup_cons.mp hdistinct
    rw [erase, without]
    by_cases hkey : key = k
    · subst hkey
      have hkept : ∀ e ∈ rest, decide (e.1 ≠ key) = true := by
        intro e he
        have hmem : e.1 ∈ keys rest := List.mem_map_of_mem he
        exact decide_eq_true fun heq => habsent (by rwa [heq] at hmem)
      rw [if_pos rfl, List.filter_cons_of_neg (by simp), List.filter_eq_self.mpr hkept]
    · rw [if_neg hkey, List.filter_cons_of_pos (by simpa using Ne.symm hkey), ih hrest]
      rfl

end Entries

/-! ## Mutations of plain lists -/

/-- Whether a map of the type lets its fields be accessed: a JSON object or a map, but no record. -/
def Ty.isObject : Ty → Bool
  | .json | .map _ => true
  | _ => false

namespace Mutation

/-- What a mutation that succeeds does to the elements of an array. An element is stored in the form
that the element type has for it. No other call that succeeds on an array changes it. -/
def onElements (elementType : Ty) (xs : List Value) : Mutation → List Value
  | write (.set index) x => replacedAt xs index.toNat (elementType.normalize x)
  | write (.setElement index) x => replacedAt xs index.toNat (elementType.normalize x)
  | write .push x => xs ++ [elementType.normalize x]
  | _ => xs

/-- What a mutation that succeeds does to the entries of a map. Where the map is no object, access
to its fields does nothing. -/
def onEntries (ty : Ty) (es : Entries Value) : Mutation → Entries Value
  | write (.put key) x => es.assigned key x
  | remove key => es.without key
  | write (.setField key) x => if ty.isObject then es.assigned key x else es
  | removeField key => if ty.isObject then es.without key else es
  | write (.putEncoded key target limit) x =>
    match x.encodeEntry target (.root limit) with
    | .ok w => es.assigned key w
    | .error _ => es
  | _ => es

end Mutation

/-- Keys stay distinct. -/
theorem Mutation.distinct_onEntries (c : Mutation) (ty : Ty) {es : Entries Value}
    (hdistinct : Entries.Distinct es) : Entries.Distinct (c.onEntries ty es) := by
  have hassigned (key : String) (x : Value) : Entries.Distinct (es.assigned key x) := by
    rw [← Entries.insert_eq_assigned hdistinct]
    exact hdistinct.insert key x
  have hwithout (key : String) : Entries.Distinct (es.without key) := by
    rw [← Entries.erase_eq_without hdistinct]
    exact hdistinct.erase key
  -- each call assigns, removes or leaves the entries alone
  unfold onEntries
  split
  · exact hassigned _ _
  · exact hwithout _
  · split
    · exact hassigned _ _
    · exact hdistinct
  · split
    · exact hwithout _
    · exact hdistinct
  · split
    · exact hassigned _ _
    · exact hdistinct
  · exact hdistinct

/-! ## One mutation -/

/-- The array `b` is the array `a` with these elements instead of its own. -/
structure TypedArray.Refilled (a b : TypedArray) (elements : List Value) : Prop where
  elementType : b.elementType = a.elementType
  frozen : b.frozen = a.frozen
  isPacked : b.storage.isPacked = a.storage.isPacked
  toList : b.toList = elements

/-- A write never turns a packed storage into a boxed one, nor back. -/
theorem Storage.isPacked_write? {s after : Storage} {index : Nat} {v : Value}
    (h : s.write? index v = some after) : after.isPacked = s.isPacked := by
  cases s with
  | boxed elements =>
    cases h
    rfl
  | packed column =>
    cases v with
    | scalar s =>
      obtain ⟨written, -, rfl⟩ := Option.map_eq_some_iff.mp h
      rfl
    | _ => cases h

/-- A write that succeeds replaces or appends one element. -/
theorem TypedArray.refilled_of_set {a b : TypedArray} {index : Int} {x : Value}
    (h : a.set index x = .ok b) :
    a.Refilled b (replacedAt a.toList index.toNat (a.elementType.normalize x)) := by
  obtain ⟨-, -, hmost, -, storage, hwrite, rfl⟩ := set_eq_ok_iff.mp h
  have hindex : index.toNat ≤ a.toList.length := by
    have hsize : a.toList.length = a.size := rfl
    omega
  refine ⟨rfl, rfl, Storage.isPacked_write? hwrite, ?_⟩
  exact (Storage.toList_write hwrite).trans (writeAt_eq_replacedAt hindex _)

/-- A push is a write one past the end. -/
theorem TypedArray.refilled_of_push {a b : TypedArray} {x : Value} (h : a.push x = .ok b) :
    a.Refilled b (a.toList ++ [a.elementType.normalize x]) := by
  have hset := refilled_of_set h
  have hend : ¬ a.size < a.toList.length := Nat.lt_irrefl a.size
  rwa [Int.toNat_natCast, replacedAt, if_neg hend] at hset

/-- **A mutation that succeeds on an array** is one of its list. -/
theorem Mutation.run_array {c : Mutation} {a : TypedArray} {after : Value} {vs : List Value}
    (h : c.run (.array a) = .ok (after, vs)) :
    ∃ b, after = .array b ∧ a.Refilled b (c.onElements a.elementType a.toList) := by
  have hkept : a.Refilled a a.toList := ⟨rfl, rfl, rfl, rfl⟩
  cases c with
  | remove key => cases h
  | removeField key =>
    cases h
    exact ⟨a, rfl, hkept⟩
  | write w x =>
    rw [run_write, Write.run_eq] at h
    cases w with
    | set index =>
      replace h : attempt (a.set index x) >>= (fun b => .ok (.array b, [])) = .ok (after, vs) := h
      obtain ⟨b, hset, h⟩ := bind_eq_ok_iff.mp h
      cases h
      exact ⟨b, rfl, TypedArray.refilled_of_set (attempt_eq_ok_iff.mp hset)⟩
    | push =>
      replace h : attempt (a.push x) >>= (fun b => .ok (.array b, [])) = .ok (after, vs) := h
      obtain ⟨b, hpush, h⟩ := bind_eq_ok_iff.mp h
      cases h
      exact ⟨b, rfl, TypedArray.refilled_of_push (attempt_eq_ok_iff.mp hpush)⟩
    | setElement index =>
      -- the element is held against the element type twice, here and by the write
      obtain ⟨after, hset, h⟩ := bind_eq_ok_iff.mp h
      cases h
      rw [attempt_eq_ok_iff, Value.setElement_eq] at hset
      dsimp only at hset
      split at hset
      · cases hset
      · obtain ⟨b, hb, rfl⟩ := map_eq_ok_iff.mp (mapError_eq_ok_iff.mp hset)
        exact ⟨b, rfl, TypedArray.refilled_of_set hb⟩
    | put key => cases h
    | setField key =>
      cases h
      exact ⟨a, rfl, hkept⟩
    | putEncoded key target limit => cases h

theorem Value.asObject?_map (m : TypedMap) :
    (Value.map m).asObject? = if m.ty.isObject then some m else none := by
  simp only [asObject?]
  cases m.ty <;> rfl

theorem TypedMap.eta (m : TypedMap) : ⟨m.ty, m.entries, m.frozen⟩ = m := by
  cases m
  rfl

/-- A put that succeeds assigns. -/
theorem TypedMap.assigned_of_put {m n : TypedMap} {key : String} {x : Value}
    (hdistinct : Entries.Distinct m.entries) (h : m.put key x = .ok n) :
    n = { m with entries := Entries.assigned m.entries key x } := by
  obtain ⟨-, -, rfl⟩ := put_eq_ok_iff.mp h
  rw [Entries.insert_eq_assigned hdistinct]

theorem TypedMap.without_of_remove {m n : TypedMap} {key : String}
    (hdistinct : Entries.Distinct m.entries) (h : m.remove key = .ok n) :
    n = { m with entries := Entries.without m.entries key } := by
  obtain ⟨-, rfl⟩ := remove_eq_ok_iff.mp h
  rw [Entries.erase_eq_without hdistinct]

/-- **A mutation that succeeds on a map** is one of its association list. -/
theorem Mutation.run_map {c : Mutation} {m : TypedMap} {after : Value} {vs : List Value}
    (hdistinct : Entries.Distinct m.entries) (h : c.run (.map m) = .ok (after, vs)) :
    after = .map { m with entries := c.onEntries m.ty m.entries } := by
  cases c with
  | remove key =>
    rw [run_remove, Edit.run_eq] at h
    replace h : attempt (m.remove key) >>= (fun n => .ok (.map n, (m.get? key).toList)) =
      .ok (after, vs) := h
    obtain ⟨n, hremove, h⟩ := bind_eq_ok_iff.mp h
    cases h
    rw [TypedMap.without_of_remove hdistinct (attempt_eq_ok_iff.mp hremove)]
    rfl
  | removeField key =>
    rw [run_removeField, Edit.run_eq] at h
    obtain ⟨v, hremove, h⟩ := bind_eq_ok_iff.mp h
    cases h
    rw [attempt_eq_ok_iff, Value.removeField_eq, Value.asObject?_map] at hremove
    by_cases hobject : m.ty.isObject
    · rw [if_pos hobject] at hremove
      obtain ⟨n, hn, rfl⟩ := map_eq_ok_iff.mp hremove
      rw [TypedMap.without_of_remove hdistinct hn, onEntries, if_pos hobject]
    · -- a record is no object, and nothing happens to it
      rw [if_neg hobject] at hremove
      cases hremove
      rw [onEntries, if_neg hobject, TypedMap.eta]
  | write w x =>
    rw [run_write, Write.run_eq] at h
    cases w with
    | set index => cases h
    | push => cases h
    | setElement index =>
      cases h
      exact congrArg Value.map m.eta.symm
    | put key =>
      replace h : attempt (m.put key x) >>= (fun n => .ok (.map n, (m.get? key).toList)) =
        .ok (after, vs) := h
      obtain ⟨n, hput, h⟩ := bind_eq_ok_iff.mp h
      cases h
      rw [TypedMap.assigned_of_put hdistinct (attempt_eq_ok_iff.mp hput)]
      rfl
    | setField key =>
      obtain ⟨v, hput, h⟩ := bind_eq_ok_iff.mp h
      cases h
      rw [attempt_eq_ok_iff, Value.setField_eq, Value.asObject?_map] at hput
      by_cases hobject : m.ty.isObject
      · rw [if_pos hobject] at hput
        obtain ⟨n, hn, rfl⟩ := map_eq_ok_iff.mp (mapError_eq_ok_iff.mp hput)
        rw [TypedMap.assigned_of_put hdistinct hn, onEntries, if_pos hobject]
      · rw [if_neg hobject] at hput
        cases hput
        rw [onEntries, if_neg hobject, TypedMap.eta]
    | putEncoded key target limit =>
      replace h : attempt (m.putEncoded key x target (.root limit)) >>=
        (fun n => .ok (.map n, [])) = .ok (after, vs) := h
      obtain ⟨n, hput, h⟩ := bind_eq_ok_iff.mp h
      cases h
      rw [attempt_eq_ok_iff, TypedMap.putEncoded_eq] at hput
      obtain ⟨w, hencoded, hput⟩ := TypedMap.store_eq_ok_iff.mp hput
      rw [TypedMap.assigned_of_put hdistinct hput, onEntries, hencoded]

/-! ## Sequences -/

/-- **Calls that fail do not count.** If each mutation that succeeds does to a value what `f` does
to a model of it, a sequence does what `f` does for its successful mutations. -/
theorem Value.mutate_simulates {σ : Type} {R : Value → σ → Prop} {f : σ → Mutation → σ}
    (hstep : ∀ (c : Mutation) (v : Value) (s : σ) (after : Value) (vs : List Value),
      R v s → c.run v = .ok (after, vs) → R after (f s c))
    (calls : List Mutation) {v : Value} {s : σ} (h : R v s) :
    R (Value.mutate calls v).2
      ((Mutation.answered calls (Value.mutate calls v).1).foldl f s) := by
  -- on the calls: a refused one leaves the value in relation, an accepted one takes a step on both
  -- sides
  induction calls generalizing v s with
  | nil => exact h
  | cons c rest ih =>
    rw [mutate_cons]
    cases hrun : c.run v with
    | error refusal =>
      rw [Mutation.step_of_error hrun]
      exact ih h
    | ok outcome =>
      obtain ⟨after, vs⟩ := outcome
      rw [Mutation.step_of_ok hrun]
      exact ih (hstep c v s after vs h hrun)

/-- The successful mutations by themselves answer what they answered, and lead to the same value. -/
theorem Value.mutate_answered (calls : List Mutation) (v : Value) :
    Value.mutate (Mutation.answered calls (Value.mutate calls v).1) v =
      ((Value.mutate calls v).1.filter (·.isOk), (Value.mutate calls v).2) := by
  induction calls generalizing v with
  | nil => rfl
  | cons c rest ih =>
    rw [mutate_cons]
    cases hrun : c.run v with
    -- a refused call leaves the value, so replaying without it starts from the same one
    | error refusal =>
      rw [Mutation.step_of_error hrun]
      exact ih v
    | ok outcome =>
      obtain ⟨after, vs⟩ := outcome
      rw [Mutation.step_of_ok hrun]
      show Value.mutate (c :: Mutation.answered rest (Value.mutate rest after).1) v = _
      rw [mutate_cons, Mutation.step_of_ok hrun, ih after]
      rfl

/-- A sequence of calls on an array leaves an array of the same type, flag and kind of storage, with
the elements that the accepted calls make of them. -/
theorem Value.mutate_array (calls : List Mutation) (a : TypedArray) :
    ∃ b, (Value.mutate calls (.array a)).2 = .array b ∧ a.Refilled b
      ((Mutation.answered calls (Value.mutate calls (.array a)).1).foldl
        (Mutation.onElements a.elementType) a.toList) := by
  refine mutate_simulates (R := fun v xs => ∃ b, v = .array b ∧ a.Refilled b xs) ?_ calls
    ⟨a, rfl, rfl, rfl, rfl, rfl⟩
  rintro c v xs after vs ⟨b, rfl, hb⟩ hrun
  obtain ⟨b', rfl, hb'⟩ := Mutation.run_array hrun
  refine ⟨b', rfl, hb'.elementType.trans hb.elementType, hb'.frozen.trans hb.frozen,
    hb'.isPacked.trans hb.isPacked, ?_⟩
  rw [hb'.toList, hb.elementType, hb.toList]

/-- A sequence of calls on a map leaves a map of the same type and flag, with the entries that the
accepted calls make of them. -/
theorem Value.mutate_map (calls : List Mutation) {m : TypedMap}
    (hdistinct : Entries.Distinct m.entries) :
    (Value.mutate calls (.map m)).2 = .map ⟨m.ty,
      (Mutation.answered calls (Value.mutate calls (.map m)).1).foldl
        (Mutation.onEntries m.ty) m.entries, m.frozen⟩ := by
  have hstart : Value.map m = .map ⟨m.ty, m.entries, m.frozen⟩ :=
    congrArg Value.map m.eta.symm
  refine (mutate_simulates
    (R := fun v es => v = .map ⟨m.ty, es, m.frozen⟩ ∧ Entries.Distinct es) ?_ calls
    ⟨hstart, hdistinct⟩).1
  rintro c _ es after vs ⟨rfl, hes⟩ hrun
  exact ⟨Mutation.run_map hes hrun, c.distinct_onEntries m.ty hes⟩

/-! ## Direct writes -/

/-- Whether a map of the type may hold a value under a key: JSON in a JSON object, what the
constraint admits in a map, what the type of the field admits in a record. A field that is not
declared goes by the type for the rest, if there is one. -/
def Ty.MayHold (ty : Ty) (key : String) (x : Value) : Prop :=
  match ty with
  | .json => Ty.json.admits x = true
  | .mapOf t => t.admits x = true
  | .record r => ∃ t, r.typeForKey? key = some t ∧ t.admits x = true
  | _ => True

/-- `put` rejects what the type does not allow under the key, and nothing else. -/
theorem TypedMap.rejection?_eq_none_iff {m : TypedMap} {key : String} {x : Value} :
    m.rejection? key x = none ↔ m.ty.MayHold key x := by
  cases hty : m.ty with
  | json => exact rejection?_json hty
  | map constraint =>
    cases constraint with
    | none => exact iff_of_true (rejection?_openMap hty) trivial
    | some t => exact rejection?_mapOf hty
  | record r => exact rejection?_record hty
  | _ => simp [rejection?, hty, Ty.MayHold]

/-- `put` is accepted on a map that is not frozen, for what the type allows. -/
theorem TypedMap.exists_put_iff {m : TypedMap} {key : String} {x : Value} :
    (∃ n, m.put key x = .ok n) ↔ m.frozen = false ∧ m.ty.MayHold key x := by
  constructor
  · rintro ⟨n, h⟩
    obtain ⟨hfrozen, haccepted, -⟩ := put_eq_ok_iff.mp h
    exact ⟨hfrozen, rejection?_eq_none_iff.mp haccepted⟩
  · rintro ⟨hfrozen, hholds⟩
    exact ⟨_, put_eq_ok_iff.mpr ⟨hfrozen, rejection?_eq_none_iff.mpr hholds, rfl⟩⟩

theorem TypedMap.get?_of_put {m n : TypedMap} {key : String} {x : Value} (h : m.put key x = .ok n)
    (other : String) : n.get? other = if other = key then some x else m.get? other := by
  obtain ⟨-, -, rfl⟩ := put_eq_ok_iff.mp h
  exact Entries.lookup_insert m.entries key other x

/-- `set` is accepted on an array that is not frozen, within bounds or one past the end, for what
the element type admits. -/
theorem TypedArray.exists_set_iff {a : TypedArray} (hfits : a.storage.Fits a.elementType)
    {index : Int} {x : Value} :
    (∃ b, a.set index x = .ok b) ↔
      a.frozen = false ∧ 0 ≤ index ∧ index ≤ a.size ∧ a.elementType.admits x = true := by
  constructor
  · rintro ⟨b, h⟩
    obtain ⟨hfrozen, hleast, hmost, hadmits, -⟩ := set_eq_ok h
    exact ⟨hfrozen, hleast, hmost, hadmits⟩
  · rintro ⟨hfrozen, hleast, hmost, hadmits⟩
    -- a storage that fits the element type takes every value of it, so the write itself does not
    -- fail
    exact set_of_admits hfits hfrozen hleast hmost hadmits

/-- Afterwards the index holds the value in normal form, and every other index what it held. -/
theorem TypedArray.get?_of_set {a b : TypedArray} {index : Int} {x : Value}
    (h : a.set index x = .ok b) (i : Nat) :
    b.get? i = if (i : Int) = index then some (a.elementType.normalize x) else a.get? i := by
  obtain ⟨-, hleast, hmost, -, -, -, hlist⟩ := set_eq_ok h
  have hindex : index.toNat ≤ a.toList.length := by
    have hsize : a.toList.length = a.size := rfl
    omega
  have hsame : (i : Int) = index ↔ i = index.toNat := by omega
  rw [get?, hlist, getElem?_writeAt a.toList index.toNat _ hindex, if_congr hsame rfl rfl]
  rfl

/-- **Mutations are changes of plain lists, and those that fail leave no trace.** Without the
mutations that fail, a sequence answers the same and leads to the same value: they work in place and
nothing is rolled back, but each makes all its checks before it writes
(`Mutation.perform_allOrNothing`). An array ends with the list that its successful mutations make of
its elements, a map with the association list that they make of its entries; element types, types,
storage and flags stay. A direct write succeeds exactly when the container is not frozen, the
position is one of the array or the next one, and the type allows the value; it changes nothing at
other positions and under other keys. Keys are distinct in every map, and a storage fits in every
array that the library makes (`Value.hasFittingStorage_keptByCalls`). -/
theorem mutate_replays :
    (∀ (calls : List Mutation) (v : Value),
      Value.mutate (Mutation.answered calls (Value.mutate calls v).1) v =
        ((Value.mutate calls v).1.filter (·.isOk), (Value.mutate calls v).2)) ∧
    (∀ (calls : List Mutation) (a : TypedArray),
      ∃ b, (Value.mutate calls (.array a)).2 = .array b ∧ a.Refilled b
        ((Mutation.answered calls (Value.mutate calls (.array a)).1).foldl
          (Mutation.onElements a.elementType) a.toList)) ∧
    (∀ (calls : List Mutation) (m : TypedMap), Entries.Distinct m.entries →
      (Value.mutate calls (.map m)).2 = .map ⟨m.ty,
        (Mutation.answered calls (Value.mutate calls (.map m)).1).foldl
          (Mutation.onEntries m.ty) m.entries, m.frozen⟩) ∧
    (∀ (a : TypedArray) (index : Int) (x : Value), a.storage.Fits a.elementType →
      ((∃ b, a.set index x = .ok b) ↔
        a.frozen = false ∧ 0 ≤ index ∧ index ≤ a.size ∧ a.elementType.admits x = true) ∧
      ∀ b, a.set index x = .ok b → ∀ i : Nat,
        b.get? i = if (i : Int) = index then some (a.elementType.normalize x) else a.get? i) ∧
    ∀ (m : TypedMap) (key : String) (x : Value),
      ((∃ n, m.put key x = .ok n) ↔ m.frozen = false ∧ m.ty.MayHold key x) ∧
      ∀ n, m.put key x = .ok n → ∀ other,
        n.get? other = if other = key then some x else m.get? other := by
  refine ⟨Value.mutate_answered, Value.mutate_array, fun calls m => Value.mutate_map calls,
    fun a index x hfits => ⟨TypedArray.exists_set_iff hfits, fun b hb => TypedArray.get?_of_set hb⟩,
    fun m key x => ⟨TypedMap.exists_put_iff, fun n hn => TypedMap.get?_of_put hn⟩⟩

/-- Four calls on a map, one of them refused; an integer written at the end of a byte array; a put
beside another key. -/
theorem mutate_replays_scores :
    (Value.mutate
        [.write (.put "b") (.int 7), .write (.put "c") (.string "x"), .remove "a",
          .write (.setField "a") (.int 9)]
        (.map ⟨.mapOf .int, [("a", .int 1), ("b", .int 2)], false⟩)).2 =
      .map ⟨.mapOf .int, [("b", .int 7), ("a", .int 9)], false⟩ ∧
    (∃ b, TypedArray.set ⟨.byte, .packed (.bytes [1]), false⟩ 1 (.int 7) = .ok b ∧
      b.get? 0 = some (.byte 1) ∧ b.get? 1 = some (.byte 7)) ∧
    ∃ n, TypedMap.put ⟨.mapOf .int, [("a", .int 1)], false⟩ "b" (.int 2) = .ok n ∧
      n.get? "a" = some (.int 1) := by
  have hdistinct : Entries.Distinct [("a", Value.int 1), ("b", .int 2)] := by
    simp [Entries.Distinct, Entries.keys]
  obtain ⟨-, -, hmaps, hsets, hputs⟩ := mutate_replays
  refine ⟨?_, ?_, ?_⟩
  · exact hmaps
      [.write (.put "b") (.int 7), .write (.put "c") (.string "x"), .remove "a",
        .write (.setField "a") (.int 9)]
      ⟨.mapOf .int, [("a", .int 1), ("b", .int 2)], false⟩ hdistinct
  · obtain ⟨hiff, hframe⟩ := hsets ⟨.byte, .packed (.bytes [1]), false⟩ 1 (.int 7) rfl
    obtain ⟨b, hb⟩ := hiff.mpr ⟨rfl, by decide, by decide, rfl⟩
    exact ⟨b, hb, hframe b hb 0, hframe b hb 1⟩
  · obtain ⟨hiff, hframe⟩ := hputs ⟨.mapOf .int, [("a", .int 1)], false⟩ "b" (.int 2)
    obtain ⟨n, hn⟩ := hiff.mpr ⟨rfl, rfl⟩
    exact ⟨n, hn, hframe n hn "a"⟩

end TypedJson
