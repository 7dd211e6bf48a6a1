import TypedJson.Scalar

/-!
# TypedJson — columns

A column holds scalars of one type without their type tags: the compact storage of an array whose
element type is such a type. `Column.toScalars` is its view; what a column can hold is decided by
`Column.write?`.
-/

namespace TypedJson

/-- A list of scalars of one type. Decimals have no column. -/
inductive Column where
  | ints (cells : List Int64)
  | floats (cells : List Binary64)
  | booleans (cells : List Bool)
  | strings (cells : List String)
  | bytes (cells : List UInt8)
  deriving DecidableEq

/-- Replaces the element at `index`, or appends where `index` is the length. -/
def writeAt {α : Type} (xs : List α) (index : Nat) (x : α) : List α :=
  if index = xs.length then xs ++ [x] else xs.set index x

/-- A write commutes with a function on the elements: it sees positions, not what is there. -/
theorem map_writeAt {α β : Type} (f : α → β) (xs : List α) (index : Nat) (x : α) :
    (writeAt xs index x).map f = writeAt (xs.map f) index (f x) := by
  unfold writeAt
  rw [List.length_map]
  split <;> simp [List.map_set]

/-- The list grows by one where the write is one past the end, and only there. -/
theorem length_writeAt {α : Type} (xs : List α) (index : Nat) (x : α) :
    (writeAt xs index x).length = if index = xs.length then xs.length + 1 else xs.length := by
  unfold writeAt
  split <;> simp

/-- Nothing but the value written is new. -/
theorem mem_writeAt {α : Type} {xs : List α} {index : Nat} {x y : α}
    (h : y ∈ writeAt xs index x) : y ∈ xs ∨ y = x := by
  unfold writeAt at h
  split at h
  · simpa using h
  · exact List.mem_or_eq_of_mem_set h

/-- A write changes one position. -/
theorem getElem?_writeAt {α : Type} (xs : List α) (index : Nat) (x : α) (h : index ≤ xs.length)
    (i : Nat) : (writeAt xs index x)[i]? = if i = index then some x else xs[i]? := by
  unfold writeAt
  split
  · rename_i e
    subst e
    -- an append: positions before the end are as they were, the end is the new one, and beyond it
    -- there is nothing before or after
    rcases Nat.lt_trichotomy i xs.length with lt | rfl | gt
    · simp [List.getElem?_append_left lt, Nat.ne_of_lt lt]
    · simp
    · have beyond : xs.length + 1 ≤ i := gt
      rw [List.getElem?_eq_none (by simpa using beyond), if_neg (Nat.ne_of_gt gt),
        List.getElem?_eq_none (Nat.le_of_lt gt)]
  · rename_i e
    -- a replacement, and so a position that is there already
    have lt : index < xs.length := Nat.lt_of_le_of_ne h e
    by_cases same : i = index
    · subst same
      simp [lt]
    · simp [same, List.getElem?_set_ne (Ne.symm same)]

namespace Column

/-- The empty column of a scalar type, if it has columns. -/
def empty? : ScalarKind → Option Column
  | .int => some (ints [])
  | .float => some (floats [])
  | .boolean => some (booleans [])
  | .string => some (strings [])
  | .byte => some (bytes [])
  | .decimal => none

/-- The scalars of a column, in order. -/
def toScalars : Column → List Scalar
  | ints cells => cells.map .int
  | floats cells => cells.map .float
  | booleans cells => cells.map .boolean
  | strings cells => cells.map .string
  | bytes cells => cells.map .byte

/-- Every kind of column starts without elements. -/
theorem toScalars_empty {k : ScalarKind} {column : Column} (h : empty? k = some column) :
    column.toScalars = [] := by
  cases k <;> cases h <;> rfl

/-- Writes a scalar at `index`, or appends it where `index` is the length. Fails on a scalar of
another type than the column's. -/
def write? (column : Column) (index : Nat) (s : Scalar) : Option Column :=
  match column, s with
  | ints cells, .int i => some (ints (writeAt cells index i))
  | floats cells, .float x => some (floats (writeAt cells index x))
  | booleans cells, .boolean b => some (booleans (writeAt cells index b))
  | strings cells, .string s => some (strings (writeAt cells index s))
  | bytes cells, .byte b => some (bytes (writeAt cells index b))
  | _, _ => none

/-- A write that a column takes is the write into its view. -/
theorem toScalars_write {column after : Column} {index : Nat} {s : Scalar}
    (h : column.write? index s = some after) :
    after.toScalars = writeAt column.toScalars index s := by
  cases column <;> cases s <;> cases h <;> exact map_writeAt _ _ _ _

end Column

end TypedJson
