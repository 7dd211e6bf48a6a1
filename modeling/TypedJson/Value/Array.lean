import TypedJson.Admission
import TypedJson.Error
import TypedJson.Name
import TypedJson.Update

/-!
# TypedJson — reading and writing arrays

A write is checked in this order: the array is not frozen, the index is a position or the one past
the end, the element type admits the value. It works on the array in place (`setInPlace`); `set` is
the array after a write that succeeded.
-/

namespace TypedJson

/-- The form in which an element type stores a value that it admits. -/
def Ty.normalize : Ty → Value → Value
  | .scalar k, .scalar s => .scalar (s.normalize k)
  | _, v => v

namespace Storage

/-- Writes a value at `index`, or appends it where `index` is the number of elements. Fails where a
column cannot hold the value. -/
def write? (s : Storage) (index : Nat) (v : Value) : Option Storage :=
  match s, v with
  | .packed column, .scalar s => (column.write? index s).map .packed
  | .packed _, _ => none
  | .boxed elements, v => some (.boxed (writeAt elements index v))

/-- A write that a storage takes is the write into its elements. -/
theorem toList_write {s after : Storage} {index : Nat} {v : Value}
    (h : s.write? index v = some after) : after.toList = writeAt s.toList index v := by
  cases s with
  | boxed elements =>
    cases h
    rfl
  | packed column =>
    cases v with
    | scalar s =>
      -- a column takes scalars of its own kind only, in the form that it has for them
      obtain ⟨written, hw, rfl⟩ := Option.map_eq_some_iff.mp h
      simp [toList, Column.toScalars_write hw, map_writeAt]
    -- nothing but a scalar fits into a column
    | null => cases h
    | array a => cases h
    | map m => cases h

end Storage

namespace TypedArray

/-- The storage after a write at `index`, or why the array does not take the value there. -/
def storageAfter (a : TypedArray) (index : Int) (v : Value) : Except Error Storage :=
  if a.frozen then .error (.frozen (Ty.array a.elementType).name)
  else if index < 0 ∨ a.size < index then .error (.indexOutOfRange index a.size)
  else
    let mismatch (v : Value) : Error := .inherentType a.elementType.name v.typeName
    if !a.elementType.admits v then .error (mismatch v)
    else
      let v := a.elementType.normalize v
      match a.storage.write? index.toNat v with
      | some storage => .ok storage
      | none => .error (mismatch v)

/-- Writes a value at `index`; the index past the end appends it. -/
def setInPlace (index : Int) (v : Value) : Update Error TypedArray Unit := do
  let storage ← .look (·.storageAfter index v)
  modify fun a => { a with storage }

/-- A refused write leaves the array as it was: all its checks come before the change. -/
theorem setInPlace_allOrNothing (index : Int) (v : Value) : (setInPlace index v).AllOrNothing :=
  .look_bind _ fun _ => Update.allOrNothing_modifyGet _

/-- The array after a write at `index`. -/
def set (a : TypedArray) (index : Int) (v : Value) : Except Error TypedArray :=
  (setInPlace index v).after a

/-- The array after a write, by the checks that the write makes. -/
theorem set_eq (a : TypedArray) (index : Int) (v : Value) :
    a.set index v =
      if a.frozen then .error (.frozen (Ty.array a.elementType).name)
      else if index < 0 ∨ a.size < index then .error (.indexOutOfRange index a.size)
      else
        let mismatch (v : Value) : Error := .inherentType a.elementType.name v.typeName
        if !a.elementType.admits v then .error (mismatch v)
        else
          let v := a.elementType.normalize v
          match a.storage.write? index.toNat v with
          | some storage => .ok { a with storage }
          | none => .error (mismatch v) := by
  rw [set, Update.after, setInPlace, Update.outcome_look_bind, storageAfter]
  split
  · rfl
  split
  · rfl
  -- the type, after the flag and the index; the storage comes last
  dsimp only
  split
  · rfl
  · cases a.storage.write? index.toNat (a.elementType.normalize v) <;> rfl

/-- A write succeeds exactly when it is allowed and the storage can hold the value, and it changes
the storage and nothing else. -/
theorem set_eq_ok_iff {a after : TypedArray} {index : Int} {v : Value} :
    a.set index v = .ok after ↔
      a.frozen = false ∧ 0 ≤ index ∧ index ≤ a.size ∧ a.elementType.admits v = true ∧
        ∃ storage, a.storage.write? index.toNat (a.elementType.normalize v) = some storage ∧
          after = { a with storage } := by
  rw [set_eq]
  cases a.frozen with
  | true => simp
  | false =>
    -- the checks in their order, each with the case in which it fails first
    by_cases hindex : index < 0 ∨ (a.size : Int) < index
    · have houtside : ¬ (0 ≤ index ∧ index ≤ (a.size : Int)) := by omega
      simp only [hindex, if_true]
      constructor
      · exact fun h => nomatch h
      · exact fun ⟨_, hleast, hmost, _⟩ => absurd ⟨hleast, hmost⟩ houtside
    · have hinside : 0 ≤ index ∧ index ≤ (a.size : Int) := by omega
      cases hadmits : a.elementType.admits v with
      | false => simp [hindex]
      | true =>
        cases hwrite : a.storage.write? index.toNat (a.elementType.normalize v) with
        | none => simp [hindex, hwrite]
        | some storage => simp [hindex, hinside, hwrite, eq_comm]

/-- A write that succeeds was allowed, and it changes the elements at one position and nothing
else. -/
theorem set_eq_ok {a after : TypedArray} {index : Int} {v : Value}
    (h : a.set index v = .ok after) :
    a.frozen = false ∧ 0 ≤ index ∧ index ≤ a.size ∧ a.elementType.admits v = true ∧
      after.elementType = a.elementType ∧ after.frozen = a.frozen ∧
      after.toList = writeAt a.toList index.toNat (a.elementType.normalize v) := by
  obtain ⟨hfrozen, hleast, hmost, hadmits, storage, hwrite, rfl⟩ := set_eq_ok_iff.mp h
  exact ⟨hfrozen, hleast, hmost, hadmits, rfl, rfl, Storage.toList_write hwrite⟩

/-- Appends a value. -/
def pushInPlace (v : Value) : Update Error TypedArray Unit := do
  let size ← .look (.ok ·.size)
  setInPlace size v

/-- To append is to write past the end, so a refused one leaves no trace either. -/
theorem pushInPlace_allOrNothing (v : Value) : (pushInPlace v).AllOrNothing :=
  .look_bind _ fun size => setInPlace_allOrNothing size v

/-- The array after a value is appended. -/
def push (a : TypedArray) (v : Value) : Except Error TypedArray := (pushInPlace v).after a

/-- To append is to write past the end. -/
theorem push_eq (a : TypedArray) (v : Value) : a.push v = a.set a.size v := rfl

/-- Appends values one by one. -/
def pushAll (a : TypedArray) (vs : List Value) : Except Error TypedArray := vs.foldlM push a

/-- The array with these elements, each of them checked. -/
def ofList (elementType : Ty) (vs : List Value) : Except Error TypedArray :=
  (empty elementType).pushAll vs

/-- The element at `index`, or an error where that is no position. -/
def get (a : TypedArray) (index : Int) : Except Error Value :=
  match if index < 0 then none else a.get? index.toNat with
  | some v => .ok v
  | none => .error (.indexOutOfRange index a.size)

/-- What is read stands in the array. -/
theorem mem_of_get {a : TypedArray} {index : Int} {v : Value} (h : a.get index = .ok v) :
    v ∈ a.toList := by
  unfold get at h
  split at h
  · rename_i x hx
    cases h
    split at hx
    · cases hx
    · exact List.mem_of_getElem? hx
  · cases h

end TypedArray

end TypedJson
