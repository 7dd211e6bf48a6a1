import TypedJson.Depth
import TypedJson.Proofs.Induction
import TypedJson.Proofs.Loops

/-!
# TypedJson — how deep containers are nested

The depth limit is a bound on the number of containers that lie inside each other.

* **`Value.nesting`** — that number, for a value;
* **`Value.checkNesting_eq_ok_iff`** — it is what the check of the nesting measures.
-/

namespace TypedJson

mutual

/-- The number of containers on the deepest way into a value. -/
def Value.nesting : Value → Nat
  | .null => 0
  | .scalar _ => 0
  | .array a => a.nesting
  | .map m => m.nesting
termination_by structural v => v

def TypedArray.nesting : TypedArray → Nat
  | ⟨_, storage, _⟩ => storage.nesting + 1
termination_by structural a => a

def Storage.nesting : Storage → Nat
  | .packed _ => 0
  | .boxed elements => Value.nestingAll elements
termination_by structural s => s

def TypedMap.nesting : TypedMap → Nat
  | ⟨_, entries, _⟩ => Value.nestingEntries entries + 1
termination_by structural m => m

def Value.nestingAll : List Value → Nat
  | [] => 0
  | v :: rest => max v.nesting (Value.nestingAll rest)
termination_by structural vs => vs

def Value.nestingEntries : List (String × Value) → Nat
  | [] => 0
  | (_, v) :: rest => max v.nesting (Value.nestingEntries rest)
termination_by structural es => es

end

/-- An array or a map. -/
def Value.IsContainer : Value → Prop
  | .array _ | .map _ => True
  | _ => False

theorem Value.nestingAll_le_iff {vs : List Value} {n : Nat} :
    Value.nestingAll vs ≤ n ↔ ∀ v ∈ vs, v.nesting ≤ n := by
  induction vs with
  | nil => simp [Value.nestingAll]
  | cons v rest ih => rw [Value.nestingAll, Nat.max_le, ih, List.forall_mem_cons]

theorem Value.nestingEntries_le_iff {es : List (String × Value)} {n : Nat} :
    Value.nestingEntries es ≤ n ↔ ∀ e ∈ es, e.2.nesting ≤ n := by
  induction es with
  | nil => simp [Value.nestingEntries]
  | cons e rest ih => rw [Value.nestingEntries, Nat.max_le, ih, List.forall_mem_cons]

/-- An array is one container more than the deepest of its elements. -/
theorem TypedArray.nesting_le_iff {a : TypedArray} {n : Nat} :
    (Value.array a).nesting ≤ n + 1 ↔ ∀ v ∈ a.toList, v.nesting ≤ n := by
  obtain ⟨elementType, storage, frozen⟩ := a
  rw [Value.nesting, nesting, Nat.add_le_add_iff_right]
  cases storage with
  | packed column =>
    refine iff_of_true (Nat.zero_le n) fun v hv => ?_
    obtain ⟨s, -, rfl⟩ := List.mem_map.mp hv
    exact Nat.zero_le n
  | boxed elements => exact Value.nestingAll_le_iff

/-- A map is one container more than the deepest of its values. -/
theorem TypedMap.nesting_le_iff {m : TypedMap} {n : Nat} :
    (Value.map m).nesting ≤ n + 1 ↔ ∀ e ∈ m.entries, e.2.nesting ≤ n := by
  cases m
  rw [Value.nesting, nesting, Nat.add_le_add_iff_right]
  exact Value.nestingEntries_le_iff

theorem TypedArray.nesting_pos (a : TypedArray) : 0 < (Value.array a).nesting := by
  cases a
  exact Nat.succ_pos _

theorem TypedMap.nesting_pos (m : TypedMap) : 0 < (Value.map m).nesting := by
  cases m
  exact Nat.succ_pos _

/-! ## Entering containers -/

/-- There is room for so many containers inside each other. -/
def Depth.HasRoom (d : Depth) (n : Nat) : Prop := d.current + n ≤ d.limit

/-- There is room for a container exactly if it can be entered and there is room for what is in it
then. -/
theorem Depth.hasRoom_iff {α : Type} {xs : List α} {inside : α → Nat} {nesting : Nat}
    (hpos : 0 < nesting) (hnesting : ∀ n, nesting ≤ n + 1 ↔ ∀ x ∈ xs, inside x ≤ n) {d : Depth} :
    d.HasRoom nesting ↔ ∃ inner, d.enter = .ok inner ∧ ∀ x ∈ xs, inner.HasRoom (inside x) := by
  constructor
  · intro h
    unfold HasRoom at h
    refine ⟨⟨d.current + 1, d.limit⟩, enter_eq_ok_iff.mpr ⟨by omega, rfl⟩, fun x hx => ?_⟩
    have hinside : inside x ≤ nesting - 1 := (hnesting (nesting - 1)).mp (by omega) x hx
    show d.current + 1 + inside x ≤ d.limit
    omega
  · rintro ⟨inner, henter, hinside⟩
    obtain ⟨hroom, rfl⟩ := enter_eq_ok_iff.mp henter
    -- what is left below the level entered bounds the parts, so it bounds the whole but for one
    have hleft : ∀ x ∈ xs, inside x ≤ d.limit - (d.current + 1) := by
      intro x hx
      have hx : d.current + 1 + inside x ≤ d.limit := hinside x hx
      omega
    have hle : nesting ≤ d.limit - (d.current + 1) + 1 := (hnesting _).mpr hleft
    show d.current + nesting ≤ d.limit
    omega

/-- There is room for an array when it can be entered and there is room for each element then. -/
theorem TypedArray.hasRoom_iff {a : TypedArray} {d : Depth} :
    d.HasRoom (Value.array a).nesting ↔
      ∃ inner, d.enter = .ok inner ∧ ∀ v ∈ a.toList, inner.HasRoom v.nesting :=
  Depth.hasRoom_iff a.nesting_pos fun _ => nesting_le_iff

theorem TypedMap.hasRoom_iff {m : TypedMap} {d : Depth} :
    d.HasRoom (Value.map m).nesting ↔
      ∃ inner, d.enter = .ok inner ∧ ∀ e ∈ m.entries, inner.HasRoom e.2.nesting :=
  Depth.hasRoom_iff m.nesting_pos fun _ => nesting_le_iff

/-- Entering checks the level it goes to, so no level above the limit is ever reached. -/
theorem Depth.current_le_of_enter {d inner : Depth} (h : d.enter = .ok inner) :
    inner.current ≤ inner.limit := by
  obtain ⟨hroom, rfl⟩ := enter_eq_ok_iff.mp h
  exact hroom

/-- **The check of the nesting goes through exactly if there is room for it.** -/
theorem Value.checkNesting_eq_ok_iff {v : Value} {d : Depth} (hd : d.current ≤ d.limit) :
    v.checkNesting d = .ok () ↔ d.HasRoom v.nesting := by
  induction v generalizing d with
  | null => exact iff_of_true rfl hd
  | scalar s => exact iff_of_true rfl hd
  | array a ih =>
    show a.checkNesting d = .ok () ↔ _
    rw [TypedArray.hasRoom_iff, TypedArray.checkNesting_eq, bind_eq_ok_iff]
    -- both sides enter the array and go on with its elements
    refine exists_congr fun inner => and_congr_right fun henter => ?_
    rw [forM_eq_ok_iff]
    exact forall₂_congr fun v hv => ih v hv (Depth.current_le_of_enter henter)
  | map m ih =>
    show m.checkNesting d = .ok () ↔ _
    rw [TypedMap.hasRoom_iff, TypedMap.checkNesting_eq, bind_eq_ok_iff]
    refine exists_congr fun inner => and_congr_right fun henter => ?_
    rw [forM_eq_ok_iff]
    exact forall₂_congr fun e he => ih e he (Depth.current_le_of_enter henter)

/-- A container is converted to `string` by checking its nesting and writing it out. -/
theorem Ty.decode_string_of_isContainer {v : Value} (h : v.IsContainer) (depth : Depth) :
    Ty.string.decode depth v = v.checkNesting depth >>= fun _ => .ok (.string v.text) := by
  cases v with
  | array a => rfl
  | map m => rfl
  | _ => exact h.elim

end TypedJson
