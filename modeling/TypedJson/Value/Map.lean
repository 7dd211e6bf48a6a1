import TypedJson.Admission
import TypedJson.Error
import TypedJson.Name
import TypedJson.Update

/-!
# TypedJson — reading and writing maps

The type of a map says which value a key may hold: JSON in a JSON object, the constraint in a map,
the declared type in a record, where an undeclared key needs a type for all other keys. Changes work
on the map in place and give the value that was under the key before; `put` and `remove` are the map
after a change that succeeded.
-/

namespace TypedJson

namespace TypedMap

/-- Why a map may not hold `v` under `key`, if it may not. -/
def rejection? (m : TypedMap) (key : String) (v : Value) : Option Error :=
  let mismatch (t : Ty) : Option Error :=
    if t.admits v then none else some (.inherentType t.name v.typeName)
  match m.ty with
  | .json => mismatch .json
  | .map (some t) => mismatch t
  | .record r =>
    match r.typeForKey? key with
    | some t => mismatch t
    | none => some (.inherentType ("field of " ++ r.name) ("undeclared field '" ++ key ++ "'"))
  | _ => none

section

variable {m : TypedMap} {key : String} {v : Value}

/-- A JSON object holds JSON under any key. -/
theorem rejection?_json (h : m.ty = .json) :
    m.rejection? key v = none ↔ Ty.json.admits v = true := by
  simp [rejection?, h]

/-- A map without a constraint holds anything. -/
theorem rejection?_openMap (h : m.ty = .openMap) : m.rejection? key v = none := by
  simp [rejection?, h]

/-- A map with a constraint holds what the constraint admits, under any key. -/
theorem rejection?_mapOf {t : Ty} (h : m.ty = .mapOf t) :
    m.rejection? key v = none ↔ t.admits v = true := by
  simp [rejection?, h]

/-- A record holds under a key what the type for that key admits, and nothing under a key that has
none. -/
theorem rejection?_record {r : RecordTy} (h : m.ty = .record r) :
    m.rejection? key v = none ↔ ∃ t, r.typeForKey? key = some t ∧ t.admits v = true := by
  cases ht : r.typeForKey? key <;> simp [rejection?, h, ht]

/-- Whether a map may hold a value depends on its type alone. -/
theorem rejection?_congr {n : TypedMap} (h : m.ty = n.ty) :
    m.rejection? key v = n.rejection? key v := by
  rw [rejection?, rejection?, h]

end

/-- A frozen map refuses all changes. -/
def checkMutable (m : TypedMap) : Except Error Unit :=
  if m.frozen then .error (.frozen m.ty.name) else .ok ()

/-- What is checked before a put: that the map is not frozen, then that it may hold the value. -/
def checkPut (m : TypedMap) (key : String) (v : Value) : Except Error Unit := do
  m.checkMutable
  match m.rejection? key v with
  | some e => .error e
  | none => .ok ()

/-- Puts a value under a key and gives the one that was there. A key that is there keeps its
place. -/
def putInPlace (key : String) (v : Value) : Update Error TypedMap (Option Value) := do
  .look (·.checkPut key v)
  modifyGet fun m => (m.get? key, { m with entries := Entries.insert m.entries key v })

/-- A refused put leaves the map as it was: all its checks come before the change. -/
theorem putInPlace_allOrNothing (key : String) (v : Value) : (putInPlace key v).AllOrNothing :=
  .look_bind _ fun _ => Update.allOrNothing_modifyGet _

/-- The map after a put. -/
def put (m : TypedMap) (key : String) (v : Value) : Except Error TypedMap :=
  (putInPlace key v).after m

/-- A put gives what was under the key. -/
theorem putInPlace_outcome (m : TypedMap) (key : String) (v : Value) :
    (putInPlace key v).outcome m = (m.put key v).map fun after => (after, m.get? key) := by
  rw [put, Update.after, putInPlace, Update.outcome_look_bind]
  cases m.checkPut key v <;> rfl

/-- The map after a put, by the checks that the put makes. -/
theorem put_eq (m : TypedMap) (key : String) (v : Value) :
    m.put key v =
      if m.frozen then .error (.frozen m.ty.name)
      else match m.rejection? key v with
        | some e => .error e
        | none => .ok { m with entries := Entries.insert m.entries key v } := by
  rw [put, Update.after, putInPlace, Update.outcome_look_bind, checkPut, checkMutable]
  -- the flag comes before the type
  split
  · rfl
  · cases m.rejection? key v <;> rfl

/-- A put succeeds exactly when the map is not frozen and may hold the value. -/
theorem put_eq_ok_iff {m after : TypedMap} {key : String} {v : Value} :
    m.put key v = .ok after ↔
      m.frozen = false ∧ m.rejection? key v = none ∧
        after = { m with entries := Entries.insert m.entries key v } := by
  rw [put_eq]
  cases m.frozen <;> cases m.rejection? key v <;> simp [eq_comm]

/-- Removes a key and gives what was under it; the others keep their order. A frozen map refuses
even where there is no such key. -/
def removeInPlace (key : String) : Update Error TypedMap (Option Value) := do
  .look checkMutable
  modifyGet fun m => (m.get? key, { m with entries := Entries.erase m.entries key })

/-- A refused removal leaves the map as it was. -/
theorem removeInPlace_allOrNothing (key : String) : (removeInPlace key).AllOrNothing :=
  .look_bind _ fun _ => Update.allOrNothing_modifyGet _

/-- The map after a removal. -/
def remove (m : TypedMap) (key : String) : Except Error TypedMap := (removeInPlace key).after m

/-- A removal gives what was under the key. -/
theorem removeInPlace_outcome (m : TypedMap) (key : String) :
    (removeInPlace key).outcome m = (m.remove key).map fun after => (after, m.get? key) := by
  rw [remove, Update.after, removeInPlace, Update.outcome_look_bind]
  cases m.checkMutable <;> rfl

/-- The map after a removal. Whether there is such a key is not asked. -/
theorem remove_eq (m : TypedMap) (key : String) :
    m.remove key =
      if m.frozen then .error (.frozen m.ty.name)
      else .ok { m with entries := Entries.erase m.entries key } := by
  rw [remove, Update.after, removeInPlace, Update.outcome_look_bind, checkMutable]
  split <;> rfl

theorem remove_eq_ok_iff {m after : TypedMap} {key : String} :
    m.remove key = .ok after ↔
      m.frozen = false ∧ after = { m with entries := Entries.erase m.entries key } := by
  rw [remove_eq]
  cases m.frozen <;> simp [eq_comm]

/-- Puts several values one by one. -/
def putAll (m : TypedMap) (entries : List (String × Value)) : Except Error TypedMap :=
  entries.foldlM (fun m (key, v) => m.put key v) m

end TypedMap

end TypedJson
