import TypedJson.Number.Power

/-!
# TypedJson — binary floating-point numbers

A number of the 64-bit binary interchange format, kept as its bits. Two functions carry all of its
arithmetic:

* **`Binary64.magnitude`** — the exact rational that a finite number stands for, its sign aside;
* **`Binary64.ofMagnitude`** — the number nearest to a rational, ties to even, overflowing to
  infinity.

An operation on floats is then an exact operation on rationals followed by one rounding
(`Binary64.nearest`), so no rounding happens anywhere else.
-/

namespace TypedJson

/-- A number of the 64-bit binary interchange format: a sign bit, eleven exponent bits and
fifty-two fraction bits. Two numbers are the same datum (`=`) exactly when their bits agree; numeric
equality is `==`. -/
structure Binary64 where
  bits : UInt64
  deriving DecidableEq

namespace Binary64

/-! ### The fields of a number -/

/-- The sign bit, set also on a negative zero. -/
def isNegative (x : Binary64) : Bool := x.bits >>> 63 == 1

/-- The exponent field, between 0 and 2047. -/
def exponentField (x : Binary64) : Nat := (x.bits >>> 52 &&& 0x7ff).toNat

/-- The fraction field, of fifty-two bits. -/
def fractionField (x : Binary64) : Nat := (x.bits &&& 0xfffffffffffff).toNat

/-- The value of the leading one in front of the fraction field, `2 ^ 52`. -/
def leadingOne : Nat := 0x10000000000000

/-- Neither an infinity nor a NaN. -/
def isFinite (x : Binary64) : Bool := x.exponentField != 2047

/-- Not a number: an exponent field of all ones with a fraction that is not zero. -/
def isNaN (x : Binary64) : Bool := x.exponentField == 2047 && x.fractionField != 0

/-- The integer significand of a finite number. A zero exponent field means that the leading one is
not there. -/
def significand (x : Binary64) : Nat :=
  if x.exponentField = 0 then x.fractionField else leadingOne + x.fractionField

/-- The power of two that the significand is multiplied by. -/
def exponent (x : Binary64) : Int := (max x.exponentField 1 : Nat) - 1075

/-- The exact value of a finite number without its sign. -/
def magnitude (x : Binary64) : Rat := x.significand * power 2 x.exponent

/-- The one NaN that stands for all of them. -/
def nan : Binary64 := ⟨0x7ff8000000000000⟩

/-- Positive or negative zero. -/
def isZero (x : Binary64) : Bool := x.exponentField == 0 && x.fractionField == 0

/-- Numeric equality of floats: a NaN equals nothing, itself included, and the two zeros equal each
other. -/
def numEq (x y : Binary64) : Bool := !x.isNaN && (x.bits == y.bits || x.isZero && y.isZero)

instance : BEq Binary64 := ⟨numEq⟩

/-! ### Rounding -/

/-- The integer nearest to a non-negative rational, a tie going to the even neighbour. -/
def roundHalfEven (x : Rat) : Nat :=
  let below := x.floor.toNat
  let rest := x - below
  if rest < mkRat 1 2 then below
  else if mkRat 1 2 < rest then below + 1
  else below + below % 2

/-- The integer nearest to a non-negative rational, a tie going up. -/
def roundHalfUp (x : Rat) : Nat := (x + mkRat 1 2).floor.toNat

/-- The floor of the base-two logarithm of a positive rational. -/
def log2Floor (x : Rat) : Int :=
  let guess : Int := x.num.toNat.log2 - x.den.log2
  if x < power 2 guess then guess - 1 else guess

/-- The exponent of the unit in the last place around a positive rational: fifty-three binary
digits, but never finer than the least subnormal number. -/
def unitExponent (x : Rat) : Int := max (log2Floor x - 52) (-1074)

/-- The bits of positive infinity, `2047 · 2 ^ 52`. -/
def infinityWord : Nat := 0x7ff0000000000000

/-- The sign bit alone. -/
def signWord : Nat := 0x8000000000000000

/-- The number with the given sign that is nearest to a non-negative rational.

The rounded significand `q` at exponent `e` is written as `(e + 1074) · 2 ^ 52 + q`. This one sum is
right for subnormal numbers, for normal ones and for a `q` that rounding has carried into the next
power of two; past the largest finite number it reaches the pattern of infinity. -/
def ofMagnitude (negative : Bool) (x : Rat) : Binary64 :=
  let e := unitExponent x
  let word := if x = 0 then 0 else (e + 1074).toNat * leadingOne + roundHalfEven (x / power 2 e)
  ⟨UInt64.ofNat ((if negative then signWord else 0) + min word infinityWord)⟩

/-- A non-negative rational rounded to the nearest number. -/
def nearest (x : Rat) : Rat := (ofMagnitude false x).magnitude

/-- The number nearest to an integer; zero becomes the positive zero. -/
def ofInt (n : Int) : Binary64 := ofMagnitude (n < 0) n.natAbs

/-! ### Where no NaN comes from -/

/-- The eleven bits of the exponent in terms of division. The mask is one less than a power of two,
so it is a remainder. -/
theorem exponentField_eq (x : Binary64) :
    x.exponentField = x.bits.toNat / 0x10000000000000 % 0x800 := by
  unfold exponentField
  rw [UInt64.toNat_and, UInt64.toNat_shiftRight, Nat.shiftRight_eq_div_pow]
  exact Nat.and_two_pow_sub_one_eq_mod _ 11

/-- The fifty-two bits below. -/
theorem fractionField_eq (x : Binary64) : x.fractionField = x.bits.toNat % 0x10000000000000 := by
  unfold fractionField
  rw [UInt64.toNat_and]
  exact Nat.and_two_pow_sub_one_eq_mod _ 52

/-- Both have an exponent field of their own, so one excludes the other. -/
theorem isNaN_of_isFinite {x : Binary64} (h : x.isFinite = true) : x.isNaN = false := by
  unfold isFinite at h
  unfold isNaN
  rw [Bool.and_eq_false_iff]
  left
  simpa using h

/-- Rounding reaches infinity at most. -/
theorem isNaN_ofMagnitude (negative : Bool) (x : Rat) : (ofMagnitude negative x).isNaN = false := by
  obtain ⟨word, hword, hbits⟩ : ∃ word ≤ infinityWord,
      (ofMagnitude negative x).bits = .ofNat ((if negative then signWord else 0) + word) :=
    ⟨_, Nat.min_le_right _ _, rfl⟩
  have hnat : (ofMagnitude negative x).bits.toNat = (if negative then signWord else 0) + word := by
    rw [hbits, UInt64.toNat_ofNat']
    apply Nat.mod_eq_of_lt
    unfold infinityWord at hword
    unfold signWord
    split <;> omega
  -- an exponent field of all ones leaves room for the word of infinity only
  have hfields : (ofMagnitude negative x).exponentField = 2047 →
      (ofMagnitude negative x).fractionField = 0 := by
    rw [exponentField_eq, fractionField_eq, hnat]
    unfold infinityWord at hword
    unfold signWord
    split <;> omega
  unfold isNaN
  by_cases h : (ofMagnitude negative x).exponentField = 2047
  · rw [hfields h]
    simp
  · simp [h]

theorem isNaN_ofInt (n : Int) : (ofInt n).isNaN = false := isNaN_ofMagnitude _ _

end Binary64

end TypedJson
