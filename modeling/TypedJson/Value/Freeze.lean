import TypedJson.Basic

/-!
# TypedJson — freezing

A frozen container is never changed again, and neither is any container inside it. Freezing sets the
flag of every container that can be reached through elements and entries; the defaults inside types
are no part of the value and stay as they are.
-/

namespace TypedJson

mutual

/-- Freezes a value and every container inside it. -/
def Value.freeze : Value → Value
  | .null => .null
  | .scalar s => .scalar s
  | .array a => .array a.freeze
  | .map m => .map m.freeze
termination_by structural v => v

/-- Freezes an array and every container inside it. -/
def TypedArray.freeze : TypedArray → TypedArray
  | ⟨elementType, storage, _⟩ => ⟨elementType, storage.freeze, true⟩
termination_by structural a => a

def Storage.freeze : Storage → Storage
  | .packed column => .packed column
  | .boxed elements => .boxed (Value.freezeAll elements)
termination_by structural s => s

/-- Freezes a map and every container inside it. -/
def TypedMap.freeze : TypedMap → TypedMap
  | ⟨ty, entries, _⟩ => ⟨ty, Value.freezeEntries entries, true⟩
termination_by structural m => m

def Value.freezeAll : List Value → List Value
  | [] => []
  | v :: rest => v.freeze :: Value.freezeAll rest
termination_by structural vs => vs

def Value.freezeEntries : List (String × Value) → List (String × Value)
  | [] => []
  | (key, v) :: rest => (key, v.freeze) :: Value.freezeEntries rest
termination_by structural es => es

end

/-- The loops over elements and over entries, out of the recursion that they are written in. -/
theorem Value.freezeAll_eq_map (vs : List Value) : Value.freezeAll vs = vs.map Value.freeze := by
  induction vs with
  | nil => rfl
  | cons v rest ih => simp [Value.freezeAll, ih]

theorem Value.freezeEntries_eq_map (es : List (String × Value)) :
    Value.freezeEntries es = es.map fun e => (e.1, e.2.freeze) := by
  induction es with
  | nil => rfl
  | cons e rest ih => simp [Value.freezeEntries, ih]

/-- A frozen storage holds the frozen elements. -/
theorem Storage.toList_freeze (s : Storage) : s.freeze.toList = s.toList.map Value.freeze := by
  cases s with
  | packed column => simp [Storage.freeze, Storage.toList, Function.comp_def, Value.freeze]
  | boxed elements => exact Value.freezeAll_eq_map elements

/-- An array keeps its element type; what is inside is frozen with it. -/
theorem TypedArray.freeze_eq (a : TypedArray) :
    a.freeze = ⟨a.elementType, a.storage.freeze, true⟩ := by
  cases a
  rfl

/-- A frozen array holds the frozen elements. -/
@[simp] theorem TypedArray.toList_freeze (a : TypedArray) :
    a.freeze.toList = a.toList.map Value.freeze := by
  rw [freeze_eq]
  exact Storage.toList_freeze a.storage

/-- A frozen map holds the frozen values under the same keys. -/
theorem TypedMap.freeze_eq (m : TypedMap) :
    m.freeze = ⟨m.ty, m.entries.map fun e => (e.1, e.2.freeze), true⟩ := by
  cases m
  rw [← Value.freezeEntries_eq_map]
  rfl

end TypedJson
