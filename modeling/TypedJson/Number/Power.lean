/-!
# TypedJson — powers with integer exponents

The grids that floats and decimals live on: `2 ^ e` and `10 ^ e` for an exponent of either sign.
-/

namespace TypedJson

/-- The rational `base ^ exponent`. -/
def power (base : Nat) (exponent : Int) : Rat :=
  if 0 ≤ exponent then (Nat.pow base exponent.toNat : Nat)
  else mkRat 1 (Nat.pow base (-exponent).toNat)

end TypedJson
