import TypedJson.Value.Array
import TypedJson.Value.Map

/-!
# TypedJson — access to dynamic values

Fields and elements of a value whose shape is not known. A read from a value of another shape gives
null and a write to it does nothing; a record is not of the shape of an object. An error of the
container comes out as one of reading or of writing, except that a frozen value always reports
itself. Writes work in place on the container that the value is.
-/

namespace TypedJson

namespace Value

/-! ### Shapes -/

/-- The map of a JSON object or of a map; records are no objects. -/
def asObject? : Value → Option TypedMap
  | .map m => match m.ty with
    | .json | .map _ => some m
    | _ => none
  | _ => none

/-- What is seen as an object is that map. Records are seen as none, so the converse fails for
them. -/
theorem eq_map_of_asObject? {v : Value} {m : TypedMap} (h : v.asObject? = some m) : v = .map m := by
  cases v with
  | map n =>
    simp only [asObject?] at h
    split at h <;> cases h <;> rfl
  | _ => cases h

def isObject (v : Value) : Bool := v.asObject?.isSome

def isArray (v : Value) : Bool := v.asArray?.isSome

/-! ### Fields -/

/-- Whether an object has the key. -/
def hasField (v : Value) (key : String) : Bool :=
  match v.asObject? with
  | some m => m.hasKey key
  | none => false

/-- The value under a key of an object, or null. -/
def getField (v : Value) (key : String) : Value :=
  match v.asObject? with
  | some m => (m.get? key).getD .null
  | none => .null

/-- The keys of an object in insertion order. -/
def keys (v : Value) : List String :=
  match v.asObject? with
  | some m => m.keys
  | none => []

/-- Puts a value under a key of an object. -/
def setFieldInPlace (key : String) (field : Value) : Update Error Value Unit :=
  .within asObject? (fun _ => .map)
    (.relabel (.asWriting .inherentType) ((fun _ => ()) <$> TypedMap.putInPlace key field)) (.ok ())

/-- Removes a key of an object, if it is there. -/
def removeFieldInPlace (key : String) : Update Error Value Unit :=
  .within asObject? (fun _ => .map) ((fun _ => ()) <$> TypedMap.removeInPlace key) (.ok ())

/-- The value after a field is put. -/
def setField (v : Value) (key : String) (field : Value) : Except Error Value :=
  (setFieldInPlace key field).after v

/-- The value after a field is removed. -/
def removeField (v : Value) (key : String) : Except Error Value := (removeFieldInPlace key).after v

/-- Writing a field is a put into the object that the value is, under an error of its own. -/
theorem setField_eq (v : Value) (key : String) (field : Value) :
    v.setField key field = match v.asObject? with
      | some m => ((m.put key field).map .map).mapError (.asWriting .inherentType)
      | none => .ok v := by
  rw [setField, Update.after, setFieldInPlace, Update.outcome_within]
  -- a value of another shape is left alone, and that is a success
  cases v.asObject? with
  | none => rfl
  | some m =>
    dsimp only
    rw [Update.outcome_relabel, Update.outcome_map, TypedMap.putInPlace_outcome]
    cases m.put key field <;> rfl

/-- Removing a field is a removal. Its only error is that of a frozen object, which stays what it
is. -/
theorem removeField_eq (v : Value) (key : String) :
    v.removeField key = match v.asObject? with
      | some m => (m.remove key).map .map
      | none => .ok v := by
  rw [removeField, Update.after, removeFieldInPlace, Update.outcome_within]
  cases v.asObject? with
  | none => rfl
  | some m =>
    dsimp only
    rw [Update.outcome_map, TypedMap.removeInPlace_outcome]
    cases m.remove key <;> rfl

/-! ### Elements -/

/-- The element of an array at `index`; null for a value that is no array. -/
def getElement (v : Value) (index : Int) : Except Error Value :=
  match v with
  | .array a => (a.get index).mapError .asReading
  | _ => .ok .null

/-- Writes an element of an array; the index past the end appends it. The element is held against
the element type before anything else, so an element of the wrong type is reported as such even
where the array is frozen. -/
def setElementInPlace (index : Int) (element : Value) : Update Error Value Unit :=
  let write : Update Error TypedArray Unit := do
    .look fun a =>
      if !a.elementType.admits element then
        .error (.incompatible a.elementType.name element.typeName)
      else .ok ()
    .relabel (fun e => e.asWriting e.writeReason) (TypedArray.setInPlace index element)
  .within asArray? (fun _ => .array) write (.ok ())

/-- The value after an element is written. -/
def setElement (v : Value) (index : Int) (element : Value) : Except Error Value :=
  (setElementInPlace index element).after v

/-- The element type is asked first, and `set` asks it once more after the flag and the index. -/
theorem setElement_eq (v : Value) (index : Int) (element : Value) :
    v.setElement index element = match v with
      | .array a =>
        if !a.elementType.admits element then
          .error (.incompatible a.elementType.name element.typeName)
        else ((a.set index element).map .array).mapError fun e => e.asWriting e.writeReason
      | v => .ok v := by
  rw [setElement, Update.after, setElementInPlace, Update.outcome_within]
  cases v with
  | array a =>
    dsimp only [asArray?]
    rw [Update.outcome_look_bind, TypedArray.set, Update.after]
    -- the first check is the one that is made in front of the write
    split
    · rfl
    · dsimp only [Except.map, bind, Except.bind]
      rw [Update.outcome_relabel]
      cases (TypedArray.setInPlace index element).outcome a <;> rfl
  | _ => rfl

/-! ### Refused writes -/

/-- A refused write of a field leaves the value as it was: the put leaves no trace in the map, and
the map goes back where it was. -/
theorem setFieldInPlace_allOrNothing (key : String) (field : Value) :
    (setFieldInPlace key field).AllOrNothing :=
  .within (.relabel (.map (TypedMap.putInPlace_allOrNothing key field) _) _)
    (fun _ _ h => (eq_map_of_asObject? h).symm) _

theorem removeFieldInPlace_allOrNothing (key : String) : (removeFieldInPlace key).AllOrNothing :=
  .within (.map (TypedMap.removeInPlace_allOrNothing key) _)
    (fun _ _ h => (eq_map_of_asObject? h).symm) _

theorem setElementInPlace_allOrNothing (index : Int) (element : Value) :
    (setElementInPlace index element).AllOrNothing :=
  .within (.look_bind _ fun _ => .relabel (TypedArray.setInPlace_allOrNothing index element) _)
    (fun _ _ h => (asArray?_eq_some_iff.mp h).symm) _

end Value

end TypedJson
