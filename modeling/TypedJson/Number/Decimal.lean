import TypedJson.Number.Positional

/-!
# TypedJson — decimal numbers

A decimal is a sign, an integer below `2 ^ 96` and a scale of at most 28: the integer divided by ten
to the scale. The scale is part of the datum, so `1.0` and `1.00` are different decimals, but they
are numerically equal, and so are the two zeros.
-/

namespace TypedJson

/-- The bound of a decimal's integer, `2 ^ 96`. -/
abbrev Decimal.bound : Nat := 0x1000000000000000000000000

/-- `± mantissa / 10 ^ scale`. -/
structure Decimal where
  negative : Bool
  mantissa : Nat
  scale : Nat
  mantissa_lt : mantissa < Decimal.bound := by decide
  scale_le : scale ≤ 28 := by decide
  deriving DecidableEq

namespace Decimal

/-- The decimal zero of scale zero. -/
def zero : Decimal := ⟨false, 0, 0, by decide, by decide⟩

/-- The decimal with these parts, if they are in range. -/
def ofParts? (negative : Bool) (mantissa scale : Nat) : Option Decimal :=
  if h : mantissa < bound ∧ scale ≤ 28 then some ⟨negative, mantissa, scale, h.1, h.2⟩ else none

/-- The value counted in units of `10 ^ -28`, the finest scale. -/
def units (d : Decimal) : Int :=
  let n : Int := (d.mantissa * Nat.pow 10 (28 - d.scale) : Nat)
  if d.negative then -n else n

/-- Numeric equality: scale and the sign of zero do not matter. -/
def numEq (d e : Decimal) : Bool := d.units == e.units

instance : BEq Decimal := ⟨numEq⟩

/-- An integer of 64 bits as a decimal of scale zero. -/
def ofInt64 (i : Int64) : Decimal where
  negative := i < 0
  mantissa := i.toInt.natAbs
  scale := 0
  mantissa_lt := by
    have := i.le_toInt
    have := i.toInt_lt
    show i.toInt.natAbs < 0x1000000000000000000000000
    omega
  scale_le := by decide

/-! ### Text -/

/-- The text of a decimal: sign, integer digits, and as many decimals as the scale says. -/
def text (d : Decimal) : List Char := signed d.negative (fixedPoint d.mantissa d.scale)

/-- Reads digits only; the empty text is zero. -/
def readDigits? (cs : List Char) : Option Nat :=
  if cs.all Char.isDigit then some (Nat.ofDigitChars 10 cs 0) else none

/-- Reads the text of a decimal; the number of digits behind the point is the scale. -/
def ofText? (text : List Char) : Option Decimal := do
  let (negative, body) := match text with
    | '-' :: rest => (true, rest)
    | rest => (false, rest)
  let whole := body.takeWhile (· != '.')
  let decimals := (body.dropWhile (· != '.')).drop 1
  let mantissa ← readDigits? (whole ++ decimals)
  ofParts? negative mantissa decimals.length

end Decimal

end TypedJson
