import TypedJson.Error
import TypedJson.Basic

/-!
# TypedJson — the depth limit

A conversion steps into containers inside containers and stops at a limit. The limit is checked
before a container is entered, so a limit of `n` allows `n` containers inside each other.
-/

namespace TypedJson

/-- How many containers have been entered, and how many may be. -/
structure Depth where
  current : Nat
  limit : Nat

namespace Depth

/-- The limit of a conversion that is not given one. -/
def defaultLimit : Nat := 512

/-- Outside of all containers. -/
def root (limit : Nat) : Depth := ⟨0, limit⟩

/-- Steps into a container. -/
def enter (d : Depth) : Except Error Depth :=
  if d.limit ≤ d.current then .error (.depthLimit d.limit) else .ok ⟨d.current + 1, d.limit⟩

/-- A container may be entered exactly below the limit. -/
theorem enter_eq_ok_iff {d inner : Depth} :
    d.enter = .ok inner ↔ d.current < d.limit ∧ inner = ⟨d.current + 1, d.limit⟩ := by
  unfold enter
  split
  · simp; omega
  · simp [eq_comm]; omega

end Depth

mutual

/-- Steps into every container of a value, to see whether the limit holds everywhere. -/
def Value.checkNesting : Value → Depth → Except Error Unit
  | .null, _ => .ok ()
  | .scalar _, _ => .ok ()
  | .array a, depth => a.checkNesting depth
  | .map m, depth => m.checkNesting depth
termination_by structural v => v

def TypedArray.checkNesting : TypedArray → Depth → Except Error Unit
  | ⟨_, storage, _⟩, depth => do
    let depth ← depth.enter
    storage.checkNesting depth
termination_by structural a => a

def Storage.checkNesting : Storage → Depth → Except Error Unit
  | .packed _, _ => .ok ()
  | .boxed elements, depth => Value.checkAllNesting elements depth
termination_by structural s => s

def TypedMap.checkNesting : TypedMap → Depth → Except Error Unit
  | ⟨_, entries, _⟩, depth => do
    let depth ← depth.enter
    Value.checkEntryNesting entries depth
termination_by structural m => m

def Value.checkAllNesting : List Value → Depth → Except Error Unit
  | [], _ => .ok ()
  | v :: rest, depth => do
    v.checkNesting depth
    Value.checkAllNesting rest depth
termination_by structural vs => vs

def Value.checkEntryNesting : List (String × Value) → Depth → Except Error Unit
  | [], _ => .ok ()
  | (_, v) :: rest, depth => do
    v.checkNesting depth
    Value.checkEntryNesting rest depth
termination_by structural es => es

end

/-- Scalars are no containers, so a column is looked at like any other elements. -/
theorem Storage.checkNesting_eq (s : Storage) (depth : Depth) :
    s.checkNesting depth = Value.checkAllNesting s.toList depth := by
  cases s with
  | packed column =>
    rw [checkNesting, toList]
    induction column.toScalars with
    | nil => rfl
    | cons s rest ih => exact ih
  | boxed elements => rfl

/-- The loop over elements, out of the recursion that it is written in. -/
theorem Value.checkAllNesting_eq_forM (vs : List Value) (depth : Depth) :
    Value.checkAllNesting vs depth = forM vs (·.checkNesting depth) := by
  induction vs with
  | nil => rfl
  | cons v rest ih =>
    rw [Value.checkAllNesting, List.forM_cons, ih]

/-- The loop over entries. Keys have no nesting. -/
theorem Value.checkEntryNesting_eq_forM (es : List (String × Value)) (depth : Depth) :
    Value.checkEntryNesting es depth = forM es (·.2.checkNesting depth) := by
  induction es with
  | nil => rfl
  | cons e rest ih =>
    rw [Value.checkEntryNesting, List.forM_cons, ih]

/-- An array is one container more than its elements, which are looked at in order. -/
theorem TypedArray.checkNesting_eq (a : TypedArray) (depth : Depth) :
    a.checkNesting depth = depth.enter >>= fun inner => forM a.toList (·.checkNesting inner) := by
  cases a
  rw [checkNesting, toList]
  refine bind_congr fun inner => ?_
  rw [Storage.checkNesting_eq, Value.checkAllNesting_eq_forM]

/-- A map is one container more than its values, which are looked at in order. -/
theorem TypedMap.checkNesting_eq (m : TypedMap) (depth : Depth) :
    m.checkNesting depth =
      depth.enter >>= fun inner => forM m.entries (·.2.checkNesting inner) := by
  cases m
  rw [checkNesting]
  exact bind_congr fun inner => Value.checkEntryNesting_eq_forM _ inner

end TypedJson
