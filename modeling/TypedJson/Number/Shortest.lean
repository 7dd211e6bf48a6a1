import TypedJson.Number.Binary64
import TypedJson.Number.Positional

/-!
# TypedJson — the text of a float

A finite float is written with the fewest significant digits that read back as the same float, in
positional notation however large or small it is. Whole numbers below `10 ^ 16` are the exception:
they are written out exactly with one decimal, so that `3.0` does not look like an integer.

The search walks from coarse to fine decimal grids. On the grid of multiples of `10 ^ k` only the
two neighbours of the value need to be looked at: if any point of a grid rounds to the float, one of
these two does.
-/

namespace TypedJson

namespace Binary64

/-- Half the distance to the next smaller magnitude. It is a quarter of the unit in the last place
where a new power of two begins, because the numbers below are twice as dense. -/
def lowerHalfGap (x : Binary64) : Rat :=
  if x.fractionField = 0 ∧ 1 < x.exponentField then power 2 (x.exponent - 2)
  else power 2 (x.exponent - 1)

/-- Half the distance to the next larger magnitude. -/
def upperHalfGap (x : Binary64) : Rat := power 2 (x.exponent - 1)

/-- Whether a magnitude rounds to `x`: it lies in the interval around `x` half way to its
neighbours, whose ends belong to it exactly when the significand is even. -/
def readsBack (x : Binary64) (y : Rat) : Bool :=
  let low := x.magnitude - x.lowerHalfGap
  let high := x.magnitude + x.upperHalfGap
  if x.significand % 2 = 0 then low ≤ y ∧ y ≤ high else low < y ∧ y < high

/-- The multiple of `10 ^ k` that is chosen for `x` on that grid, if one reads back: the nearer of
the two neighbours, the upper one on a tie. -/
def onGrid? (x : Binary64) (k : Int) : Option Nat :=
  let unit := power 10 k
  let below := (x.magnitude / unit).floor.toNat
  let above := below + 1
  match x.readsBack (below * unit), x.readsBack (above * unit) with
  -- a tie goes up, so the comparison is strict
  | true, true =>
    if x.magnitude - below * unit < above * unit - x.magnitude then some below else some above
  | true, false => some below
  | false, true => some above
  | false, false => none

/-- The first hit on the grids `10 ^ k, 10 ^ (k - 1), …`, `steps` of them at most; failing that the
grid point below the value. -/
def firstOnGrid (x : Binary64) : (steps : Nat) → (k : Int) → Nat × Int
  | 0, k => ((x.magnitude / power 10 k).floor.toNat, k)
  | steps + 1, k =>
    match x.onGrid? k with
    | some digits => (digits, k)
    | none => firstOnGrid x steps (k - 1)

/-- A power of ten above every number with that binary logarithm: `0.30103 > log₁₀ 2` for positive
exponents, and one more for the rounding of the quotient. -/
def decimalCeiling (log2 : Int) : Int := log2 * 30103 / 100000 + 2

/-- The shortest digits `d` and exponent `k` such that `d · 10 ^ k` reads back as the positive
finite `x`. Seventeen digits always suffice, and the search starts at most three grids above the
first. -/
def shortest (x : Binary64) : Nat × Int := firstOnGrid x 22 (decimalCeiling (log2Floor x.magnitude))

/-- The digits of a finite float and how many of them are decimals. -/
def digits (x : Binary64) : Nat × Nat :=
  let v := x.magnitude
  -- integers below 10 ^ 16 are written out, with one decimal that is zero
  if v.den = 1 ∧ v.num < 10000000000000000 then (v.num.toNat * 10, 1)
  else
    let (d, k) := x.shortest
    -- a grid above one leaves zeros before the point, one below it decimals
    (d * Nat.pow 10 k.toNat, (-k).toNat)

/-- The text of a float. -/
def text (x : Binary64) : List Char :=
  if x.isNaN then ['N', 'a', 'N']
  else if x.isFinite then
    let (d, places) := x.digits
    signed x.isNegative (fixedPoint d places)
  else signed x.isNegative ['i', 'n', 'f']

end Binary64

end TypedJson
