import TypedJson.Encode
import TypedJson.Json
import TypedJson.Proofs.Loops
import TypedJson.Value.Freeze

/-!
# TypedJson — sessions

A session is what a program does with the library: it keeps values in slots and makes one call after
the other, in any order. What a call gives goes into new slots, so it can be used by the calls that
follow; a call that changes a container changes the one in its slot, in place. That a call which
fails changes nothing is proved (`Call.perform_allOrNothing`).

The calls are grouped by what they read, so that a proof about sessions is a proof about each of the
small functions here:

* **`Fresh.value`** — values out of nothing;
* **`Reading.run`** — values out of a value, all conversions among them;
* **`Edit.perform`**, **`Write.perform`** — changes of a value, without and with an operand;
* **`Question.run`** — what is not a value;
* **`Call.perform`**, **`Call.step`**, **`Session.run`** — one call, and a whole session.

For each kind of change, `run` is its outcome where only success matters: the value afterwards and
the values given, or the refusal.

Values are copied into and out of slots. Nothing inside a container can be changed but by taking it
out, changing the copy and putting that back, so there is no sharing to model.
-/

namespace TypedJson

/-! ## Outcomes -/

/-- Why a call gave no answer. -/
inductive Refusal where
  /-- There is no such slot, or the call is for another kind of value than the one in it. -/
  | inapplicable
  | failed (e : Error)
  deriving DecidableEq

/-- What a call answers. -/
inductive Answer where
  /-- The values that the call gave. They are in new slots afterwards. -/
  | values (vs : List Value)
  | flag (b : Bool)
  | count (n : Nat)
  | text (s : String)
  | keys (ks : List String)
  | scalar (s : Option Scalar)
  | type (t : Ty)
  | document (j : Json)
  /-- Whether the elements of an array are kept as a column. -/
  | packed (b : Bool)

/-- The answer of a call that is for one kind of value only. -/
def applicable {α : Type} (shaped : Option α) : Except Refusal α :=
  match shaped with
  | some a => .ok a
  | none => .error .inapplicable

/-- The answer of a call that may fail. -/
def attempt {α : Type} (outcome : Except Error α) : Except Refusal α := outcome.mapError .failed

/-- A call is applicable when its value has the shape that it asks for. -/
theorem applicable_eq_ok_iff {α : Type} {shaped : Option α} {a : α} :
    applicable shaped = .ok a ↔ shaped = some a := by
  constructor
  · intro h
    cases shaped with
    | none => cases h
    | some b => exact congrArg some (Except.ok.inj h)
  · intro h
    rw [h]
    rfl

/-- A call for arrays that answered was made on an array. -/
theorem exists_array_of_applicable {α : Type} {v : Value} {f : TypedArray → Except Refusal α}
    {r : α}
    (h : applicable v.asArray? >>= f = .ok r) : ∃ a, v = .array a ∧ f a = .ok r := by
  obtain ⟨a, ha, h⟩ := bind_eq_ok_iff.mp h
  exact ⟨a, Value.asArray?_eq_some_iff.mp (applicable_eq_ok_iff.mp ha), h⟩

/-- A call for maps that answered was made on a map. -/
theorem exists_map_of_applicable {α : Type} {v : Value} {f : TypedMap → Except Refusal α} {r : α}
    (h : applicable v.asMap? >>= f = .ok r) : ∃ m, v = .map m ∧ f m = .ok r := by
  obtain ⟨m, hm, h⟩ := bind_eq_ok_iff.mp h
  exact ⟨m, Value.asMap?_eq_some_iff.mp (applicable_eq_ok_iff.mp hm), h⟩

theorem attempt_eq_ok_iff {α : Type} {outcome : Except Error α} {a : α} :
    attempt outcome = .ok a ↔ outcome = .ok a :=
  mapError_eq_ok_iff

/-! ## Calls -/

/-- Calls that make a value. -/
inductive Fresh where
  | null
  | scalar (s : Scalar)
  | emptyArray (elementType : Ty)
  | emptyBoxed (elementType : Ty)
  | emptyMap (ty : Ty)
  | zero (ty : Ty)
  | document (j : Json)

namespace Fresh

def value : Fresh → Value
  | null => .null
  | scalar s => .scalar s
  | emptyArray elementType => .array (.empty elementType)
  | emptyBoxed elementType => .array (.emptyBoxed elementType)
  | emptyMap ty => .map (.empty ty)
  | zero ty => ty.zero
  | document j => j.toValue

/-- The types that the caller passes. -/
def types : Fresh → List Ty
  | emptyArray t | emptyBoxed t | emptyMap t | zero t => [t]
  | null | scalar _ | document _ => []

end Fresh

/-- Calls that give values out of a value. -/
inductive Reading where
  | copy
  /-- The element at a position of an array, if there is one. -/
  | item (index : Nat)
  | itemChecked (index : Int)
  /-- The elements of an array, in order. -/
  | items
  /-- The value under a key of a map, if there is one. -/
  | entry (key : String)
  /-- The values of a map, in order. -/
  | entries
  | element (index : Int)
  | field (key : String)
  | decode (target : Ty) (limit : Nat)
  | decodeRecord (target : RecordTy) (limit : Nat)
  | decodeArray (elementType : Ty) (limit : Nat)
  | decodeMap (constraint : Option Ty) (limit : Nat)
  | encodeArray (limit : Nat)
  | encodeMap (target : Ty) (limit : Nat)
  | encodeMember (target : Ty) (limit : Nat)
  | encodeRecord (limit : Nat)

namespace Reading

/-- A call that gives one value or fails. -/
def single (outcome : Except Error Value) : Except Refusal (List Value) :=
  attempt (outcome.map fun v => [v])

theorem single_eq_ok {outcome : Except Error Value} {vs : List Value}
    (h : single outcome = .ok vs) : ∃ v, outcome = .ok v ∧ vs = [v] := by
  obtain ⟨v, hv, rfl⟩ := map_eq_ok_iff.mp (attempt_eq_ok_iff.mp h)
  exact ⟨v, hv, rfl⟩

def run : Reading → Value → Except Refusal (List Value)
  | copy, v => .ok [v]
  | item index, v => do
    let a ← applicable v.asArray?
    return (a.get? index).toList
  | itemChecked index, v => do
    let a ← applicable v.asArray?
    single (a.get index)
  | items, v => do
    let a ← applicable v.asArray?
    return a.toList
  | entry key, v => do
    let m ← applicable v.asMap?
    return (m.get? key).toList
  | entries, v => do
    let m ← applicable v.asMap?
    return m.entries.map Prod.snd
  | element index, v => single (v.getElement index)
  | field key, v => .ok [v.getField key]
  | decode target limit, v => single (target.decode (.root limit) v)
  | decodeRecord target limit, v => single ((target.decode (.root limit) v).map .map)
  | decodeArray elementType limit, v =>
    single ((TypedArray.decode elementType (.root limit) v).map .array)
  | decodeMap constraint limit, v =>
    single ((TypedMap.decode constraint (.root limit) v).map .map)
  | encodeArray limit, v => do
    let a ← applicable v.asArray?
    single ((a.encode (.root limit)).map .array)
  | encodeMap target limit, v => do
    let m ← applicable v.asMap?
    single ((m.rebuild target (.root limit)).map .map)
  | encodeMember target limit, v => single (v.encodeMember target (.root limit))
  | encodeRecord limit, v => single ((v.encodeRecord (.root limit)).map .map)

/-- The types that the caller passes. -/
def types : Reading → List Ty
  | decode target _ => [target]
  | decodeRecord target _ => [.record target]
  | decodeArray elementType _ => [.array elementType]
  | decodeMap constraint _ => [.map constraint]
  | encodeMap target _ | encodeMember target _ => [target]
  | _ => []

end Reading

/-! ### Changes in place -/

namespace Update

/-- Work on the array that a value is. -/
def onArray {α : Type} (u : Update Error TypedArray α) : Update Refusal Value α :=
  within Value.asArray? (fun _ => .array) (u.relabel .failed) (.error .inapplicable)

/-- Work on the map that a value is. -/
def onMap {α : Type} (u : Update Error TypedMap α) : Update Refusal Value α :=
  within Value.asMap? (fun _ => .map) (u.relabel .failed) (.error .inapplicable)

/-- What a change of an array does to a value: it asks for the shape, changes the array and puts it
back. -/
theorem outcome_onArray {α : Type} (u : Update Error TypedArray α) (v : Value) :
    u.onArray.outcome v = applicable v.asArray? >>= fun a =>
      attempt ((u.outcome a).map fun r => (.array r.1, r.2)) := by
  rw [onArray, outcome_within]
  cases v.asArray? with
  | none => rfl
  | some a =>
    show ((u.relabel .failed).outcome a).map _ = attempt ((u.outcome a).map _)
    rw [outcome_relabel]
    cases u.outcome a <;> rfl

theorem outcome_onMap {α : Type} (u : Update Error TypedMap α) (v : Value) :
    u.onMap.outcome v = applicable v.asMap? >>= fun m =>
      attempt ((u.outcome m).map fun r => (.map r.1, r.2)) := by
  rw [onMap, outcome_within]
  cases v.asMap? with
  | none => rfl
  | some m =>
    show ((u.relabel .failed).outcome m).map _ = attempt ((u.outcome m).map _)
    rw [outcome_relabel]
    cases u.outcome m <;> rfl

/-- A value of another shape is not changed, and an array is changed as a whole or not at all. -/
theorem AllOrNothing.onArray {α : Type} {u : Update Error TypedArray α} (hu : u.AllOrNothing) :
    u.onArray.AllOrNothing :=
  .within (hu.relabel _) (fun _ _ h => (Value.asArray?_eq_some_iff.mp h).symm) _

theorem AllOrNothing.onMap {α : Type} {u : Update Error TypedMap α} (hu : u.AllOrNothing) :
    u.onMap.AllOrNothing :=
  .within (hu.relabel _) (fun _ _ h => (Value.asMap?_eq_some_iff.mp h).symm) _

/-- A change that gives no values. -/
def silent {ε σ : Type} (u : Update ε σ Unit) : Update ε σ (List Value) := (fun _ => []) <$> u

theorem outcome_silent {ε σ : Type} (u : Update ε σ Unit) (s : σ) :
    u.silent.outcome s = (u.after s).map fun after => (after, []) := by
  rw [silent, outcome_map, after]
  cases u.outcome s <;> rfl

/-- A change of a value that gives no values, by the value afterwards. -/
theorem outcome_relabel_silent (u : Update Error Value Unit) (v : Value) :
    (u.silent.relabel Refusal.failed).outcome v = do
      let after ← attempt (u.after v)
      return (after, []) := by
  rw [outcome_relabel, outcome_silent]
  cases u.after v <;> rfl

/-- A change of an array that gives no values, by the array afterwards. -/
theorem outcome_onArray_silent (u : Update Error TypedArray Unit) (v : Value) :
    u.silent.onArray.outcome v = do
      let a ← applicable v.asArray?
      let after ← attempt (u.after a)
      return (.array after, []) := by
  rw [outcome_onArray]
  refine bind_congr fun a => ?_
  rw [outcome_silent]
  cases u.after a <;> rfl

/-- The same for a map. -/
theorem outcome_onMap_silent (u : Update Error TypedMap Unit) (v : Value) :
    u.silent.onMap.outcome v = do
      let m ← applicable v.asMap?
      let after ← attempt (u.after m)
      return (.map after, []) := by
  rw [outcome_onMap]
  refine bind_congr fun m => ?_
  rw [outcome_silent]
  cases u.after m <;> rfl

end Update

/-- Calls that change a value. -/
inductive Edit where
  | freeze
  | remove (key : String)
  | removeField (key : String)

namespace Edit

/-- The change of the value, and the values that the call gives. -/
def perform : Edit → Update Refusal Value (List Value)
  | freeze => modifyGet fun v => ([], v.freeze)
  | remove key => (Option.toList <$> TypedMap.removeInPlace key).onMap
  | removeField key => (Value.removeFieldInPlace key).silent.relabel .failed

/-- The value after the change, and the values that the call gives. -/
def run (e : Edit) (v : Value) : Except Refusal (Value × List Value) := e.perform.outcome v

/-- The outcome of an edit, read off the mutators that it calls. -/
theorem run_eq (e : Edit) (v : Value) :
    e.run v = match e with
      | freeze => .ok (v.freeze, [])
      | remove key => do
        let m ← applicable v.asMap?
        let after ← attempt (m.remove key)
        return (.map after, (m.get? key).toList)
      | removeField key => do
        let after ← attempt (v.removeField key)
        return (after, []) := by
  cases e with
  | freeze => rfl
  | remove key =>
    simp only [run, perform, Update.outcome_onMap, Update.outcome_map,
      TypedMap.removeInPlace_outcome]
    refine bind_congr fun m => ?_
    cases m.remove key <;> rfl
  | removeField key => exact (Value.removeFieldInPlace key).outcome_relabel_silent v

/-- A refused change leaves the value as it was. -/
theorem perform_allOrNothing (e : Edit) : e.perform.AllOrNothing := by
  cases e with
  | freeze => exact Update.allOrNothing_modifyGet _
  | remove key => exact .onMap (.map (TypedMap.removeInPlace_allOrNothing key) _)
  | removeField key => exact .relabel (.map (Value.removeFieldInPlace_allOrNothing key) _) _

end Edit

/-- Calls that bring another value into a value. -/
inductive Write where
  | set (index : Int)
  | push
  | put (key : String)
  | setField (key : String)
  | setElement (index : Int)
  | putEncoded (key : String) (target : Ty) (limit : Nat)

namespace Write

/-- The change of the value, and the values that the call gives. -/
def perform (operand : Value) : Write → Update Refusal Value (List Value)
  | set index => (TypedArray.setInPlace index operand).silent.onArray
  | push => (TypedArray.pushInPlace operand).silent.onArray
  | put key => (Option.toList <$> TypedMap.putInPlace key operand).onMap
  | setField key => (Value.setFieldInPlace key operand).silent.relabel .failed
  | setElement index => (Value.setElementInPlace index operand).silent.relabel .failed
  | putEncoded key target limit =>
    (TypedMap.putEncodedInPlace key operand target (.root limit)).silent.onMap

/-- The value after the change, and the values that the call gives. -/
def run (w : Write) (v operand : Value) : Except Refusal (Value × List Value) :=
  (w.perform operand).outcome v

/-- The outcome of a write, read off the mutators that it calls. -/
theorem run_eq (w : Write) (v x : Value) :
    w.run v x = match w with
      | set index => do
        let a ← applicable v.asArray?
        let after ← attempt (a.set index x)
        return (.array after, [])
      | push => do
        let a ← applicable v.asArray?
        let after ← attempt (a.push x)
        return (.array after, [])
      | put key => do
        let m ← applicable v.asMap?
        let after ← attempt (m.put key x)
        return (.map after, (m.get? key).toList)
      | setField key => do
        let after ← attempt (v.setField key x)
        return (after, [])
      | setElement index => do
        let after ← attempt (v.setElement index x)
        return (after, [])
      | putEncoded key target limit => do
        let m ← applicable v.asMap?
        let after ← attempt (m.putEncoded key x target (.root limit))
        return (.map after, []) := by
  cases w with
  | set index => exact (TypedArray.setInPlace index x).outcome_onArray_silent v
  | push => exact (TypedArray.pushInPlace x).outcome_onArray_silent v
  | put key =>
    simp only [run, perform, Update.outcome_onMap, Update.outcome_map, TypedMap.putInPlace_outcome]
    refine bind_congr fun m => ?_
    cases m.put key x <;> rfl
  | setField key => exact (Value.setFieldInPlace key x).outcome_relabel_silent v
  | setElement index => exact (Value.setElementInPlace index x).outcome_relabel_silent v
  | putEncoded key target limit =>
    exact (TypedMap.putEncodedInPlace key x target (.root limit)).outcome_onMap_silent v

/-- A refused change leaves the value as it was. -/
theorem perform_allOrNothing (w : Write) (x : Value) : (w.perform x).AllOrNothing := by
  cases w with
  | set index => exact .onArray (.map (TypedArray.setInPlace_allOrNothing index x) _)
  | push => exact .onArray (.map (TypedArray.pushInPlace_allOrNothing x) _)
  | put key => exact .onMap (.map (TypedMap.putInPlace_allOrNothing key x) _)
  | setField key => exact .relabel (.map (Value.setFieldInPlace_allOrNothing key x) _) _
  | setElement index => exact .relabel (.map (Value.setElementInPlace_allOrNothing index x) _) _
  | putEncoded key target limit =>
    exact .onMap (.map (TypedMap.putEncodedInPlace_allOrNothing key x target _) _)

/-- The types that the caller passes. -/
def types : Write → List Ty
  | putEncoded _ target _ => [target]
  | _ => []

end Write

/-- Calls that ask about a value. -/
inductive Question where
  | typeOf
  | typeName
  | isNull
  | isFrozen
  | isObject
  | isArray
  | isMap
  | asBool
  | asInt
  | asFloat
  | asString
  | text
  | toJson
  | admittedBy (target : Ty)
  | hasField (key : String)
  | fieldKeys
  | hasKey (key : String)
  | keys
  /-- The number of elements of an array or of entries of a map. -/
  | size
  | isPacked

namespace Question

def run : Question → Value → Except Refusal Answer
  | typeOf, v => .ok (.type v.typeOf)
  | typeName, v => .ok (.text v.typeName)
  | isNull, v => .ok (.flag v.isNull)
  | isFrozen, v => .ok (.flag v.isFrozen)
  | isObject, v => .ok (.flag v.isObject)
  | isArray, v => .ok (.flag v.isArray)
  | isMap, v => .ok (.flag v.asMap?.isSome)
  | asBool, v => .ok (.scalar (v.asBool?.map .boolean))
  | asInt, v => .ok (.scalar (v.asInt?.map .int))
  | asFloat, v => .ok (.scalar (v.asFloat?.map .float))
  | asString, v => .ok (.scalar (v.asString?.map .string))
  | text, v => .ok (.text v.text)
  | toJson, v => attempt (v.toJson.map .document)
  | admittedBy target, v => .ok (.flag (target.admits v))
  | hasField key, v => .ok (.flag (v.hasField key))
  | fieldKeys, v => .ok (.keys v.keys)
  | hasKey key, v => do
    let m ← applicable v.asMap?
    return .flag (m.hasKey key)
  | keys, v => do
    let m ← applicable v.asMap?
    return .keys m.keys
  | size, v =>
    match v with
    | .array a => .ok (.count a.size)
    | .map m => .ok (.count m.size)
    | _ => .error .inapplicable
  | isPacked, v => do
    let a ← applicable v.asArray?
    return .packed a.storage.isPacked

/-- The types that the caller passes. -/
def types : Question → List Ty
  | admittedBy target => [target]
  | _ => []

end Question

/-- A call, with the slots that it is about. -/
inductive Call where
  | fresh (f : Fresh)
  /-- An array of the values in some slots, each of them checked. -/
  | arrayOf (elementType : Ty) (slots : List Nat)
  | read (r : Reading) (slot : Nat)
  | edit (e : Edit) (slot : Nat)
  | write (w : Write) (slot operand : Nat)
  | ask (q : Question) (slot : Nat)
  | equal (left right : Nat)

/-! ## Sessions -/

/-- The values that a session holds, by slot. -/
abbrev Session := List Value

namespace Session

/-- The value in a slot. -/
def valueAt (session : Session) (slot : Nat) : Except Refusal Value := applicable session[slot]?

/-- The session after a call that gave new values. -/
def adding (session : Session) (vs : List Value) : Answer × Session := (.values vs, session ++ vs)

/-- The session after a call that changed a slot and gave new values. -/
def changing (session : Session) (slot : Nat) (after : Value) (vs : List Value) :
    Answer × Session :=
  (.values vs, session.set slot after ++ vs)

/-- Puts new values into new slots, and answers with them. -/
def give (vs : List Value) : Update Refusal Session Answer :=
  modifyGet fun session => session.adding vs

/-- Works in place on the value in a slot. -/
def onSlot {α : Type} (slot : Nat) (u : Update Refusal Value α) : Update Refusal Session α :=
  .within (fun session => session[slot]?) (fun session v => session.set slot v) u
    (.error .inapplicable)

/-- What a change in a slot does to a session: the value of the slot is replaced by what it has
become, and what the change gives goes into new slots. -/
theorem outcome_onSlot_give (slot : Nat) (u : Update Refusal Value (List Value))
    (session : Session) :
    ((onSlot slot u >>= give).outcome session).map Prod.swap = do
      let v ← session.valueAt slot
      let (after, vs) ← u.outcome v
      return session.changing slot after vs := by
  rw [Update.outcome_bind, onSlot, Update.outcome_within, valueAt]
  cases session[slot]? with
  | none => rfl
  | some v =>
    show Except.map _ (Except.map _ (u.outcome v) >>= _) = u.outcome v >>= _
    cases u.outcome v <;> rfl

/-- What is read from a session, and goes into new slots. -/
theorem outcome_look_give {α : Type} (f : Session → Except Refusal α) (g : α → List Value)
    (session : Session) :
    ((Update.look f >>= fun a => give (g a)).outcome session).map Prod.swap = do
      let a ← f session
      return session.adding (g a) := by
  rw [Update.outcome_look_bind]
  cases f session <;> rfl

/-- What is read from a session that stays as it is. -/
theorem outcome_look_answer (f : Session → Except Refusal Answer) (session : Session) :
    ((Update.look f).outcome session).map Prod.swap = do
      let answer ← f session
      return (answer, session) := by
  rw [Update.outcome_look]
  cases f session <;> rfl

/-- A value put back as it was leaves the session as it was. -/
theorem allOrNothing_onSlot {α : Type} {u : Update Refusal Value α} (hu : u.AllOrNothing)
    (slot : Nat) : (onSlot slot u).AllOrNothing := by
  refine .within hu (fun session v h => ?_) _
  obtain ⟨hlt, rfl⟩ := List.getElem?_eq_some_iff.mp h
  exact List.set_getElem_self hlt

end Session

namespace Call

open Session

/-- A call on a session in place. -/
def perform : Call → Update Refusal Session Answer
  | fresh f => give [f.value]
  | arrayOf elementType slots => do
    let a ← .look fun session => do
      let vs ← slots.mapM session.valueAt
      attempt (TypedArray.ofList elementType vs)
    give [.array a]
  | read r slot => do
    let vs ← .look fun session => session.valueAt slot >>= r.run
    give vs
  | edit e slot => do
    let vs ← onSlot slot e.perform
    give vs
  | write w slot operand => do
    let x ← .look fun session => session.valueAt operand
    let vs ← onSlot slot (w.perform x)
    give vs
  | ask q slot => .look fun session => session.valueAt slot >>= q.run
  | equal left right => .look fun session => do
    let v ← session.valueAt left
    let w ← session.valueAt right
    return .flag (v == w)

/-- What a call answers and the session after it. -/
def run (c : Call) (session : Session) : Except Refusal (Answer × Session) :=
  (c.perform.outcome session).map Prod.swap

/-- What a call answers and the session after it, through the outcome of the call that it makes on
the value in a slot. -/
theorem run_eq (c : Call) (session : Session) :
    c.run session = match c with
      | fresh f => .ok (session.adding [f.value])
      | arrayOf elementType slots => do
        let vs ← slots.mapM session.valueAt
        let a ← attempt (TypedArray.ofList elementType vs)
        return session.adding [.array a]
      | read r slot => do
        let v ← session.valueAt slot
        let vs ← r.run v
        return session.adding vs
      | edit e slot => do
        let v ← session.valueAt slot
        let (after, vs) ← e.run v
        return session.changing slot after vs
      | write w slot operand => do
        let v ← session.valueAt slot
        let x ← session.valueAt operand
        let (after, vs) ← w.run v x
        return session.changing slot after vs
      | ask q slot => do
        let v ← session.valueAt slot
        let answer ← q.run v
        return (answer, session)
      | equal left right => do
        let v ← session.valueAt left
        let w ← session.valueAt right
        return (.flag (v == w), session) := by
  cases c with
  | fresh f => rfl
  | arrayOf elementType slots =>
    exact (outcome_look_give _ (fun a => [.array a]) session).trans (bind_assoc _ _ _)
  | read r slot => exact (outcome_look_give _ id session).trans (bind_assoc _ _ _)
  | edit e slot => exact outcome_onSlot_give slot e.perform session
  | write w slot operand =>
    rw [run, perform, Update.outcome_look_bind]
    -- the call asks for the operand first and the outcome names the other slot first, but either
    -- one that is missing gives the same refusal
    cases hoperand : session[operand]? with
    | none =>
      simp only [valueAt, hoperand]
      cases session[slot]? <;> rfl
    | some x =>
      simp only [valueAt, hoperand]
      exact outcome_onSlot_give slot (w.perform x) session
  | ask q slot => exact (outcome_look_answer _ session).trans (bind_assoc _ _ _)
  | equal left right =>
    refine (outcome_look_answer _ session).trans ((bind_assoc _ _ _).trans ?_)
    exact bind_congr fun v => bind_assoc _ _ _

/-- **A refused call leaves the session as it was.** -/
theorem perform_allOrNothing (c : Call) : c.perform.AllOrNothing := by
  have hgive (vs : List Value) : (give vs).AllOrNothing := Update.allOrNothing_modifyGet _
  cases c with
  | fresh f => exact hgive _
  | arrayOf elementType slots => exact .look_bind _ fun a => hgive _
  | read r slot => exact .look_bind _ hgive
  | edit e slot => exact .bind_modifyGet (allOrNothing_onSlot e.perform_allOrNothing slot) _
  | write w slot operand =>
    exact .look_bind _ fun x =>
      .bind_modifyGet (allOrNothing_onSlot (w.perform_allOrNothing x) slot) _
  | ask q slot => exact Update.allOrNothing_look _
  | equal left right => exact Update.allOrNothing_look _

/-- One call of a session: what it answers, and the session that it leaves. -/
def step (c : Call) (session : Session) : Except Refusal Answer × Session :=
  c.perform.answer session

/-- What a step leaves behind follows from the outcome. -/
theorem step_eq (c : Call) (session : Session) :
    c.step session = match c.run session with
      | .ok (answer, after) => (.ok answer, after)
      | .error refusal => (.error refusal, session) := by
  rw [step, c.perform_allOrNothing.answer_eq, run]
  cases c.perform.outcome session <;> rfl

/-- The types that the caller passes. -/
def types : Call → List Ty
  | fresh f => f.types
  | arrayOf elementType _ => [elementType]
  | read r _ => r.types
  | edit _ _ => []
  | write w _ _ => w.types
  | ask q _ => q.types
  | equal _ _ => []

end Call

namespace Session

/-- A whole session: what each of the calls answers, and the values that are there at the end. -/
def run : List Call → Session → List (Except Refusal Answer) × Session
  | [], session => ([], session)
  | c :: rest, session =>
    let (answer, next) := c.step session
    let (answers, last) := run rest next
    (answer :: answers, last)

end Session

end TypedJson
