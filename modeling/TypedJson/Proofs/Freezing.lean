import TypedJson.Proofs.KeptByCalls
import TypedJson.Proofs.Mutation

/-!
# TypedJson — freezing is deep, hereditary and permanent

The flag of a frozen container speaks for itself only. That nothing inside a frozen container can be
changed either is a property of all values that a program can get hold of:

* **`Value.FrozenThroughout`** — all containers in a value are frozen, as freezing leaves them
  (`Value.frozenThroughout_freeze`), while nothing but flags is touched
  (`Value.sameButFlags_freeze`);
* **`Value.Obtainable.frozenThroughout`** — a frozen container is frozen throughout, wherever it
  came from;
* **`Mutation.run_frozen`** — what each mutation of a frozen value answers;
* **`freezing_is_permanent`** — all of it together, for sequences of mutations and for sessions.
-/

namespace TypedJson

/-! ## Frozen throughout -/

namespace Value

/-- A container is frozen; null and scalars have no flag. -/
def IsFrozenIfContainer : Value → Prop
  | .array a => a.frozen = true
  | .map m => m.frozen = true
  | _ => True

/-- Every container in the value is frozen. -/
def FrozenThroughout (v : Value) : Prop := v.Everywhere IsFrozenIfContainer

/-- The two values differ in freeze flags at most. Containers have the same declared types and are
kept in the same way, and what they hold differs in freeze flags at most, in the same places. -/
inductive SameButFlags : Value → Value → Prop
  | null : SameButFlags .null .null
  | scalar (s : Scalar) : SameButFlags (.scalar s) (.scalar s)
  | array {a b : TypedArray} (elementType : b.elementType = a.elementType)
    (isPacked : b.storage.isPacked = a.storage.isPacked) (size : b.size = a.size)
    (items : ∀ (i : Nat) (x y : Value), a.get? i = some x → b.get? i = some y → SameButFlags x y) :
    SameButFlags (.array a) (.array b)
  | map {m n : TypedMap} (ty : n.ty = m.ty) (keys : n.keys = m.keys)
    (values : ∀ (i : Nat) (e e' : String × Value), m.entries[i]? = some e →
      n.entries[i]? = some e' → SameButFlags e.2 e'.2) :
    SameButFlags (.map m) (.map n)

/-- **Freezing is deep.** -/
theorem frozenThroughout_freeze (v : Value) : v.freeze.FrozenThroughout := by
  induction v with
  | null => exact everywhere_null.mpr trivial
  | scalar s => exact everywhere_scalar.mpr trivial
  | array a ih =>
    refine everywhere_array.mpr ⟨?_, fun w hw => ?_⟩
    · rw [TypedArray.freeze_eq]
      rfl
    · -- The elements of the frozen array are the frozen elements.
      rw [TypedArray.toList_freeze] at hw
      obtain ⟨v, hv, rfl⟩ := List.mem_map.mp hw
      exact ih v hv
  | map m ih =>
    rw [Value.freeze, TypedMap.freeze_eq]
    refine everywhere_map.mpr ⟨rfl, fun e he => ?_⟩
    obtain ⟨entry, hentry, rfl⟩ := List.mem_map.mp he
    exact ih entry hentry

/-- **Freezing changes nothing but flags.** -/
theorem sameButFlags_freeze (v : Value) : v.SameButFlags v.freeze := by
  induction v with
  | null => exact .null
  | scalar s => exact .scalar s
  | array a ih =>
    have hsize : a.freeze.size = a.size := by simp [TypedArray.size]
    -- a packed array stays packed: there is nothing to freeze inside it
    have hpacked : a.freeze.storage.isPacked = a.storage.isPacked := by
      rw [TypedArray.freeze_eq]
      cases a.storage <;> rfl
    refine .array (by rw [TypedArray.freeze_eq]) hpacked hsize fun i x y hx hy => ?_
    have hfrozen : a.freeze.get? i = (a.get? i).map Value.freeze := by
      simp [TypedArray.get?]
    rw [hfrozen, hx] at hy
    cases hy
    exact ih x (List.mem_of_getElem? hx)
  | map m ih =>
    have hkeys : m.freeze.keys = m.keys := by
      rw [TypedMap.freeze_eq]
      exact Entries.keys_mapped Value.freeze m.entries
    refine .map (by rw [TypedMap.freeze_eq]) hkeys fun i e e' he he' => ?_
    rw [TypedMap.freeze_eq, List.getElem?_map, he] at he'
    cases he'
    exact ih e (List.mem_of_getElem? he)

/-- There is nothing left to freeze in a value that is frozen throughout. -/
theorem FrozenThroughout.freeze_eq {v : Value} (h : v.FrozenThroughout) : v.freeze = v := by
  induction v with
  | null => rfl
  | scalar s => rfl
  | array a ih =>
    obtain ⟨hfrozen, hitems⟩ := everywhere_array.mp h
    have hsame : ∀ v ∈ a.toList, v.freeze = v := fun v hv => ih v hv (hitems v hv)
    obtain ⟨elementType, storage, frozen⟩ := a
    -- the flag set by `freeze` is the one that is there already
    have htrue : frozen = true := hfrozen
    rw [Value.freeze, TypedArray.freeze, htrue]
    cases storage with
    | packed column => rfl
    | boxed elements =>
      have helements : Value.freezeAll elements = elements := by
        rw [Value.freezeAll_eq_map]
        exact (List.map_congr_left hsame).trans (List.map_id' _)
      rw [Storage.freeze, helements]
  | map m ih =>
    obtain ⟨hfrozen, hentries⟩ := everywhere_map.mp h
    have hsame : ∀ e ∈ m.entries, (e.1, e.2.freeze) = e := by
      intro e he
      rw [ih e he (hentries e he)]
    have hkept : (m.entries.map fun e => (e.1, e.2.freeze)) = m.entries :=
      (List.map_congr_left hsame).trans (List.map_id' _)
    have htrue : m.frozen = true := hfrozen
    rw [Value.freeze, TypedMap.freeze_eq, hkept, ← htrue]
    cases m
    rfl

end Value

/-! ## Hereditarily frozen -/

namespace Value

/-- If the container is frozen, so are all containers in it. -/
def FreezesContents (v : Value) : Prop := v.isFrozen = true → v.FrozenThroughout

/-- **Every way to make or to change a container keeps frozen containers frozen throughout.** New
containers are not frozen, and neither are those that a write went through to. -/
theorem freezesContents_keptByCalls : KeptByCalls FreezesContents fun _ => True where
  null h := nomatch h
  scalar _ h := nomatch h
  empty t h := nomatch h
  ofAny vs h := nomatch h
  set _ h hfrozen := by
    obtain ⟨hthawed, -, -, -, -, hsame, -⟩ := TypedArray.set_eq_ok h
    -- what was written to was not frozen, and the write does not set the flag
    exact absurd ((hsame.trans hthawed).symm.trans hfrozen) Bool.false_ne_true
  emptyMap t h := nomatch h
  put _ h hfrozen := by
    obtain ⟨hthawed, -, rfl⟩ := TypedMap.put_eq_ok_iff.mp h
    exact absurd (hthawed.symm.trans hfrozen) Bool.false_ne_true
  emptyBoxed t h := nomatch h
  ofJson vs _ h := nomatch h
  copied _ _ h := nomatch h
  object entries _ h := nomatch h
  zeroRecord r _ h := nomatch h
  remove _ h hfrozen := by
    obtain ⟨hthawed, rfl⟩ := TypedMap.remove_eq_ok_iff.mp h
    exact absurd (hthawed.symm.trans hfrozen) Bool.false_ne_true
  freezeArray {a} _ _ := frozenThroughout_freeze (.array a)
  freezeMap {m} _ _ := frozenThroughout_freeze (.map m)

/-- A value that a program can get hold of: it is in a slot after a session that started with
nothing. Where the session passes record types, the program got hold of their defaults in the same
way. -/
inductive Obtainable : Value → Prop
  | held {calls : List Call} {v : Value}
    (defaults : ∀ c ∈ calls, ∀ t ∈ c.types, ∀ r, (Ty.record r).Inside t →
      ∀ f ∈ r.fields, Obtainable f.2.default)
    (hv : v ∈ (Session.run calls []).2) : Obtainable v

/-- What every call keeps holds everywhere in a value that a program can get hold of. -/
theorem Obtainable.everywhere {P : Value → Prop} (hP : KeptByCalls P fun _ => True) {v : Value}
    (h : v.Obtainable) : v.Everywhere P := by
  -- the types of the calls may hold defaults, and those are obtained before: the induction is on
  -- how
  induction h with
  | @held calls v _ hv ih =>
    have hpassable : ∀ c ∈ calls, ∀ t ∈ c.types, t.Passable P fun _ => True := by
      intro c hc t ht
      refine ⟨fun _ _ => trivial, fun s hs => ?_⟩
      cases s with
      | record r => exact fun f hf => ih c hc t ht r hs f hf
      | _ => trivial
    exact (hP.run hpassable (List.forall_mem_nil _)).2 v hv

end Value

/-! ## Mutations of a frozen value -/

/-- What a mutation of a frozen value answers. It names the type of the value, unless the call finds
another fault first. A call by which fields or elements are accessed leaves a value of another shape
alone. -/
def Mutation.onFrozen (v : Value) (c : Mutation) : Except Refusal (List Value) :=
  let frozen : Except Refusal (List Value) := .error (.failed (.frozen v.typeName))
  match c, v with
  | .write (.set _) _, .array _ => frozen
  | .write .push _, .array _ => frozen
  | .write (.put _) _, .map _ => frozen
  | .remove _, .map _ => frozen
  | .write (.setField _) _, v => if v.isObject then frozen else .ok []
  | .removeField _, v => if v.isObject then frozen else .ok []
  | .write (.setElement _) x, .array a =>
    if a.elementType.admits x then frozen
    else .error (.failed (.incompatible a.elementType.name x.typeName))
  | .write (.setElement _) _, _ => .ok []
  | .write (.putEncoded key target limit) x, .map _ =>
    match x.encodeEntry target (.root limit) with
    | .ok _ => frozen
    | .error e => .error (.failed (e.annotate key))
  | _, _ => .error .inapplicable

/-- A write to a frozen array fails before it looks at anything else. -/
theorem TypedArray.set_frozen {a : TypedArray} (h : a.frozen = true) (index : Int) (v : Value) :
    a.set index v = .error (.frozen (Value.array a).typeName) := by
  rw [set_eq]
  exact if_pos h

/-- The flag is the first thing `put` looks at. -/
theorem TypedMap.put_frozen {m : TypedMap} (h : m.frozen = true) (key : String) (v : Value) :
    m.put key v = .error (.frozen (Value.map m).typeName) := by
  rw [put_eq]
  exact if_pos h

theorem TypedMap.remove_frozen {m : TypedMap} (h : m.frozen = true) (key : String) :
    m.remove key = .error (.frozen (Value.map m).typeName) := by
  rw [remove_eq]
  exact if_pos h

/-- Setting a field of a frozen object is refused; on a value that is no object it does nothing,
frozen or not. -/
theorem Value.setField_frozen {v : Value} (h : v.isFrozen = true) (key : String) (x : Value) :
    v.setField key x = if v.isObject then .error (.frozen v.typeName) else .ok v := by
  rw [setField_eq, isObject]
  cases hm : v.asObject? with
  | none => rfl
  | some m =>
    obtain rfl := Value.eq_map_of_asObject? hm
    show ((m.put key x).map Value.map).mapError _ = _
    rw [TypedMap.put_frozen h]
    rfl

theorem Value.removeField_frozen {v : Value} (h : v.isFrozen = true) (key : String) :
    v.removeField key = if v.isObject then .error (.frozen v.typeName) else .ok v := by
  rw [removeField_eq, isObject]
  cases hm : v.asObject? with
  | none => rfl
  | some m =>
    obtain rfl := Value.eq_map_of_asObject? hm
    show (m.remove key).map Value.map = _
    rw [TypedMap.remove_frozen h]
    rfl

/-- The element is looked at first, and only one that the array admits finds it frozen. -/
theorem Value.setElement_frozen {a : TypedArray} (h : a.frozen = true) (index : Int) (x : Value) :
    (Value.array a).setElement index x =
      if a.elementType.admits x then .error (.frozen (Value.array a).typeName)
      else .error (.incompatible a.elementType.name x.typeName) := by
  simp only [setElement_eq, TypedArray.set_frozen h]
  cases a.elementType.admits x <;> rfl

/-- The value is converted first, and only one that is JSON finds the map frozen. The failure of the
frozen map gets no label. -/
theorem TypedMap.putEncoded_frozen {m : TypedMap} (h : m.frozen = true) (key : String) (x : Value)
    (target : Ty) (depth : Depth) :
    m.putEncoded key x target depth =
      match x.encodeEntry target depth with
      | .ok _ => .error (.frozen (Value.map m).typeName)
      | .error e => .error (e.annotate key) := by
  rw [putEncoded_eq, store]
  cases x.encodeEntry target depth with
  | error e => rfl
  | ok w =>
    show (m.put key w).mapError _ = _
    rw [put_frozen h]
    rfl

/-- **No mutation changes a frozen value**, and each one answers what it has to. -/
theorem Mutation.run_frozen {v : Value} (h : v.isFrozen = true) (c : Mutation) :
    c.run v = (c.onFrozen v).map fun vs => (v, vs) := by
  cases c with
  | remove key =>
    rw [run_remove, Edit.run_eq]
    cases v with
    | map m =>
      show (attempt (m.remove key) >>= _) = _
      rw [TypedMap.remove_frozen h]
      rfl
    | _ => rfl
  | removeField key =>
    rw [run_removeField, Edit.run_eq]
    show (attempt (v.removeField key) >>= _) = _
    rw [Value.removeField_frozen h, onFrozen]
    cases v.isObject <;> rfl
  | write w x =>
    rw [run_write, Write.run_eq]
    cases w with
    | set index =>
      cases v with
      | array a =>
        show (attempt (a.set index x) >>= _) = _
        rw [TypedArray.set_frozen h]
        rfl
      | _ => rfl
    | push =>
      cases v with
      | array a =>
        show (attempt (a.set a.size x) >>= _) = _
        rw [TypedArray.set_frozen h]
        rfl
      | _ => rfl
    | put key =>
      cases v with
      | map m =>
        show (attempt (m.put key x) >>= _) = _
        rw [TypedMap.put_frozen h]
        rfl
      | _ => rfl
    | setField key =>
      show (attempt (v.setField key x) >>= _) = _
      rw [Value.setField_frozen h, onFrozen]
      cases v.isObject <;> rfl
    | setElement index =>
      cases v with
      | array a =>
        -- here the type comes before the flag
        show (attempt ((Value.array a).setElement index x) >>= _) = _
        rw [Value.setElement_frozen h, onFrozen]
        cases a.elementType.admits x <;> rfl
      | _ => rfl
    | putEncoded key target limit =>
      cases v with
      | map m =>
        show (attempt (m.putEncoded key x target (.root limit)) >>= _) = _
        rw [TypedMap.putEncoded_frozen h]
        simp only [onFrozen]
        cases x.encodeEntry target (.root limit) <;> rfl
      | _ => rfl

theorem Mutation.after_of_run_frozen {c : Mutation} {v after : Value} {vs : List Value}
    (h : v.isFrozen = true) (hrun : c.run v = .ok (after, vs)) : after = v := by
  rw [run_frozen h] at hrun
  obtain ⟨ws, -, heq⟩ := map_eq_ok_iff.mp hrun
  exact (congrArg Prod.fst heq).symm

/-- A whole sequence of mutations leaves a frozen value as it is. -/
theorem Value.mutate_frozen {v : Value} (h : v.isFrozen = true) (calls : List Mutation) :
    Value.mutate calls v = (calls.map (·.onFrozen v), v) := by
  induction calls with
  | nil => rfl
  | cons c rest ih =>
    have hstep : c.step v = (c.onFrozen v, v) := by
      rw [Mutation.step_eq, Mutation.run_frozen h]
      cases c.onFrozen v <;> rfl
    rw [Value.mutate_cons, hstep, ih, List.map_cons]

/-! ## Sessions -/

/-- An edit leaves a value alone that is frozen throughout. -/
theorem Edit.run_frozen {v after : Value} {vs : List Value} (h : v.isFrozen = true)
    (hthrough : v.FrozenThroughout) {e : Edit} (hrun : e.run v = .ok (after, vs)) : after = v := by
  cases e with
  | freeze =>
    cases hrun
    exact hthrough.freeze_eq
  | remove key => exact Mutation.after_of_run_frozen (c := .remove key) h hrun
  | removeField key => exact Mutation.after_of_run_frozen (c := .removeField key) h hrun

/-- **What is frozen throughout stays in its slot**, whatever is called. -/
theorem Call.run_frozen {session next : Session} {slot : Nat} {v : Value} {answer : Answer}
    (hslot : session[slot]? = some v) (h : v.isFrozen = true) (hthrough : v.FrozenThroughout)
    {c : Call} (hrun : c.run session = .ok (answer, next)) : next[slot]? = some v := by
  have hadding (base : Session) (vs : List Value) (hbase : base[slot]? = some v) :
      (base ++ vs)[slot]? = some v := by
    obtain ⟨hlt, -⟩ := List.getElem?_eq_some_iff.mp hbase
    rw [List.getElem?_append_left hlt, hbase]
  -- a call that changes a slot changes another one, or puts back what was there
  have hchanging (changed : Nat) (before after : Value) (vs : List Value)
      (hbefore : session.valueAt changed = .ok before) (hafter : before = v → after = v) :
      (session.set changed after ++ vs)[slot]? = some v := by
    refine hadding _ vs ?_
    by_cases hsame : changed = slot
    · subst hsame
      have hv : before = v := by
        have hheld := applicable_eq_ok_iff.mp hbefore
        exact Option.some.inj (hheld.symm.trans hslot)
      obtain ⟨hlt, -⟩ := List.getElem?_eq_some_iff.mp hslot
      rw [List.getElem?_set_self hlt, hafter hv]
    · rw [List.getElem?_set_ne hsame, hslot]
  rw [run_eq] at hrun
  cases c with
  | fresh f =>
    cases hrun
    exact hadding session _ hslot
  | arrayOf elementType slots =>
    obtain ⟨vs, -, hrun⟩ := bind_eq_ok_iff.mp hrun
    obtain ⟨a, -, hrun⟩ := bind_eq_ok_iff.mp hrun
    cases hrun
    exact hadding session _ hslot
  | read r read =>
    obtain ⟨x, -, hrun⟩ := bind_eq_ok_iff.mp hrun
    obtain ⟨vs, -, hrun⟩ := bind_eq_ok_iff.mp hrun
    cases hrun
    exact hadding session _ hslot
  | edit e changed =>
    obtain ⟨before, hbefore, hrun⟩ := bind_eq_ok_iff.mp hrun
    obtain ⟨⟨after, vs⟩, hedit, hrun⟩ := bind_eq_ok_iff.mp hrun
    cases hrun
    refine hchanging changed before after vs hbefore ?_
    rintro rfl
    exact Edit.run_frozen h hthrough hedit
  | write w changed operand =>
    obtain ⟨before, hbefore, hrun⟩ := bind_eq_ok_iff.mp hrun
    obtain ⟨x, -, hrun⟩ := bind_eq_ok_iff.mp hrun
    obtain ⟨⟨after, vs⟩, hwrite, hrun⟩ := bind_eq_ok_iff.mp hrun
    cases hrun
    refine hchanging changed before after vs hbefore ?_
    rintro rfl
    exact Mutation.after_of_run_frozen (c := .write w x) h hwrite
  | ask q asked =>
    obtain ⟨x, -, hrun⟩ := bind_eq_ok_iff.mp hrun
    obtain ⟨a, -, hrun⟩ := bind_eq_ok_iff.mp hrun
    cases hrun
    exact hslot
  | equal left right =>
    obtain ⟨x, -, hrun⟩ := bind_eq_ok_iff.mp hrun
    obtain ⟨y, -, hrun⟩ := bind_eq_ok_iff.mp hrun
    cases hrun
    exact hslot

/-- The same for a whole session. -/
theorem Session.run_frozen {session : Session} {slot : Nat} {v : Value}
    (hslot : session[slot]? = some v) (h : v.isFrozen = true) (hthrough : v.FrozenThroughout)
    (calls : List Call) : (run calls session).2[slot]? = some v := by
  induction calls generalizing session with
  | nil => exact hslot
  | cons c rest ih =>
    rw [run, Call.step_eq]
    -- a refused call leaves the session; an accepted one leaves the slot, because what is in it is
    -- frozen
    cases hrun : c.run session with
    | error refusal => exact ih hslot
    | ok outcome =>
      obtain ⟨answer, next⟩ := outcome
      exact ih (Call.run_frozen hslot h hthrough hrun)

/-- **Freezing is deep, hereditary and permanent.** It sets the flag of every container inside and
changes nothing else. Whatever a program gets hold of, a frozen container in it is frozen
throughout. And whatever mutations are tried on a frozen value, in whatever order, it stays exactly
as it is: each of them is refused as `Mutation.onFrozen` says or leaves alone a value that is not of
its shape. So it stays in its slot through every session. -/
theorem freezing_is_permanent :
    (∀ v : Value, v.Obtainable → ∀ w : Value, w.Inside v → w.isFrozen = true → w.FrozenThroughout) ∧
    (∀ v : Value, v.freeze.FrozenThroughout ∧ v.SameButFlags v.freeze) ∧
    (∀ v : Value, v.isFrozen = true → ∀ calls : List Mutation,
      Value.mutate calls v = (calls.map (·.onFrozen v), v)) ∧
    ∀ v : Value, v.Obtainable → v.isFrozen = true → ∀ (session : Session) (slot : Nat),
      session[slot]? = some v → ∀ calls : List Call,
        (Session.run calls session).2[slot]? = some v := by
  have hhereditary (v : Value) (h : v.Obtainable) : v.Everywhere Value.FreezesContents :=
    h.everywhere Value.freezesContents_keptByCalls
  refine ⟨hhereditary, fun v => ⟨v.frozenThroughout_freeze, v.sameButFlags_freeze⟩,
    fun v => Value.mutate_frozen, fun v hv h session slot hslot calls => ?_⟩
  exact Session.run_frozen hslot h ((hhereditary v hv).self h) calls

/-- A session that puts one array into another and freezes the outer one. -/
def Session.grid : List Call :=
  [.fresh (.emptyArray (.array .int)), .fresh (.emptyArray .int), .fresh (.scalar (.int 7)),
    .write .push 1 2, .write .push 0 1, .edit .freeze 0]

/-- The array that the session leaves in its first slot. -/
def Value.grid : Value :=
  .array ⟨.array .int, .boxed [.array ⟨.int, .packed (.ints [7]), true⟩], true⟩

/-- A grid frozen through its outer array: rows and all are frozen, and neither direct calls nor a
session through its slot change it. -/
theorem freezing_is_permanent_grid :
    (Session.run Session.grid []).2[0]? = some Value.grid ∧
      (∀ w : Value, w.Inside Value.grid → w.isFrozen = true → w.FrozenThroughout) ∧
      Value.mutate [.write (.set 5) .null, .write (.setElement 5) .null, .write (.put "k") .null,
          .removeField "k"] Value.grid =
        ([.error (.failed (.frozen "int[][]")), .error (.failed (.incompatible "int[]" "()")),
          .error .inapplicable, .ok []], Value.grid) ∧
      (Session.run [.write .push 0 1, .edit .freeze 0] [Value.grid, .null]).2[0]? =
        some Value.grid := by
  have hheld : (Session.run Session.grid []).2[0]? = some Value.grid := rfl
  have htypes : ∀ c ∈ Session.grid, ∀ t ∈ c.types, ∀ r, ¬ (Ty.record r).Inside t := by
    have hint (r : RecordTy) : ¬ (Ty.record r).Inside .int := nofun
    have harray (r : RecordTy) : ¬ (Ty.record r).Inside (.array .int) := by
      rintro ⟨⟩
      exact hint r ‹_›
    simp [Session.grid, Call.types, Fresh.types, Write.types, hint, harray]
  have hobtainable : Value.grid.Obtainable :=
    .held (fun c hc t ht r hr => absurd hr (htypes c hc t ht r)) (List.mem_of_getElem? hheld)
  obtain ⟨hereditary, -, refused, kept⟩ := freezing_is_permanent
  refine ⟨hheld, hereditary _ hobtainable, ?_, kept _ hobtainable rfl _ 0 rfl _⟩
  exact refused Value.grid rfl [.write (.set 5) .null, .write (.setElement 5) .null,
    .write (.put "k") .null, .removeField "k"]

end TypedJson
