import Mathlib.Data.Rat.Floor
import TypedJson.Number.Binary64

/-!
# TypedJson — integers among the floats

The float of an integer is its nearest one, and nothing in its definition says that there is a
finite one. For the integers of a document there is:

* **`Binary64.log2Floor_natCast`**, **`Binary64.div_power_le`** — an integer in units of the last
  place is a number of fifty-three digits;
* **`Binary64.isFinite_ofMagnitude`** — rounding stays below the word of infinity;
* **`Binary64.isFinite_ofInt`** — so sixty-four digits have a finite float.
-/

namespace TypedJson

/-! ## Powers -/

theorem power_natCast (base n : Nat) : power base n = ((base ^ n : Nat) : Rat) := by
  have hle : (0 : Int) ≤ n := Int.natCast_nonneg n
  rw [power, if_pos hle]
  rfl

theorem power_neg_natCast {base n : Nat} (h : 0 < n) :
    power base (-(n : Int)) = 1 / ((base ^ n : Nat) : Rat) := by
  have hneg : ¬ (0 : Int) ≤ -(n : Int) := by omega
  have hnat : (- -(n : Int)).toNat = n := by omega
  rw [power, if_neg hneg, hnat, Rat.mkRat_eq_div]
  rfl

/-! ## Rounding -/

namespace Binary64

/-- Rounding goes up by at most one from the integral part. -/
theorem roundHalfEven_le (x : Rat) : roundHalfEven x ≤ x.floor.toNat + 1 := by
  unfold roundHalfEven
  dsimp only
  split
  · omega
  · split <;> omega

/-- On a natural number the guess from numerator and denominator is right at once: the denominator
is 1. -/
theorem log2Floor_natCast {m : Nat} (h : m ≠ 0) : log2Floor (m : Rat) = m.log2 := by
  have hone : Nat.log2 1 = 0 := by decide
  have hguess : ((m : Rat).num.toNat.log2 - (m : Rat).den.log2 : Int) = m.log2 := by
    simp [hone]
  unfold log2Floor
  dsimp only
  rw [hguess, power_natCast, if_neg]
  exact not_lt.mpr (by exact_mod_cast Nat.log2_self_le h)

/-- A natural number in units of the last of its fifty-three digits. -/
theorem div_power_le (m : Nat) : (m : Rat) / power 2 (m.log2 - 52) ≤ (2 ^ 53 : Nat) := by
  have hlt : m < 2 ^ (m.log2 + 1) := Nat.lt_log2_self
  -- large numbers are scaled down and small ones up; either way the quotient is at most `2 ^ 53`
  by_cases hlarge : 52 ≤ m.log2
  · have hexponent : (m.log2 : Int) - 52 = (m.log2 - 52 : Nat) := by omega
    have hpos : (0 : Rat) < (2 ^ (m.log2 - 52) : Nat) := by exact_mod_cast Nat.two_pow_pos _
    have hsplit : 2 ^ 53 * 2 ^ (m.log2 - 52) = 2 ^ (m.log2 + 1) := by
      rw [← Nat.pow_add]
      congr 1
      omega
    rw [hexponent, power_natCast, div_le_iff₀ hpos]
    exact_mod_cast hsplit ▸ hlt.le
  · have hexponent : (m.log2 : Int) - 52 = -(52 - m.log2 : Nat) := by omega
    have hsplit : 2 ^ (m.log2 + 1) * 2 ^ (52 - m.log2) = 2 ^ 53 := by
      rw [← Nat.pow_add]
      congr 1
      omega
    rw [hexponent, power_neg_natCast (by omega), div_div_eq_mul_div, div_one]
    have hle : m * 2 ^ (52 - m.log2) ≤ 2 ^ 53 :=
      hsplit ▸ Nat.mul_le_mul_right _ hlt.le
    exact_mod_cast hle

/-- Rounding does not reach infinity if the word of the number does not. -/
theorem isFinite_ofMagnitude {negative : Bool} {x : Rat} {word : Nat}
    (hbits : (ofMagnitude negative x).bits =
      .ofNat ((if negative then signWord else 0) + min word infinityWord))
    (h : word < infinityWord) : (ofMagnitude negative x).isFinite = true := by
  have hmin : min word infinityWord = word := Nat.min_eq_left (Nat.le_of_lt h)
  have hnat : (ofMagnitude negative x).bits.toNat = (if negative then signWord else 0) + word := by
    rw [hbits, hmin, UInt64.toNat_ofNat']
    apply Nat.mod_eq_of_lt
    unfold infinityWord at h
    unfold signWord
    split <;> omega
  unfold isFinite
  rw [bne_iff_ne, exponentField_eq, hnat]
  unfold infinityWord at h
  unfold signWord
  split <;> omega

/-- **Integers of sixty-four bits have finite floats.** -/
theorem isFinite_ofInt {n : Int} (h : n.natAbs < 2 ^ 64) : (ofInt n).isFinite = true := by
  refine isFinite_ofMagnitude rfl ?_
  by_cases hzero : n.natAbs = 0
  · rw [hzero]
    decide
  · have hcast : ((n.natAbs : Nat) : Rat) ≠ 0 := by exact_mod_cast hzero
    have hlog : n.natAbs.log2 < 64 := (Nat.log2_lt hzero).mpr h
    -- no integer is subnormal: its unit is set by its leading bit
    have hexponent : unitExponent (n.natAbs : Nat) = n.natAbs.log2 - 52 := by
      unfold unitExponent
      rw [log2Floor_natCast hzero]
      omega
    -- a rough bound: `roundHalfEven` adds at most one to the integral part
    have hround : roundHalfEven ((n.natAbs : Nat) / power 2 (n.natAbs.log2 - 52)) ≤ 2 ^ 53 + 1 := by
      refine (roundHalfEven_le _).trans ?_
      have hfloor :
          ((n.natAbs : Nat) / power 2 (n.natAbs.log2 - 52) : Rat).floor ≤ (2 ^ 53 : Nat) := by
        have hcast := (Rat.floor_le _).trans (div_power_le n.natAbs)
        exact_mod_cast hcast
      omega
    rw [if_neg hcast, hexponent]
    unfold leadingOne infinityWord
    have hword : (n.natAbs.log2 - 52 + 1074 : Int).toNat ≤ 1085 := by omega
    omega
end Binary64

end TypedJson
