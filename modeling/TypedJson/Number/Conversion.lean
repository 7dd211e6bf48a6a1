import TypedJson.Number.Binary64
import TypedJson.Number.Decimal

/-!
# TypedJson — between floats and decimals

From a float to a decimal the value is first written exactly as `m · 10 ^ -s` with an integer `m`
that must fit ninety-six bits, halving or multiplying by five for every power of two. Then digits
are given up: those behind the twenty-eighth decimal, those that make `m` wider than a float's own
significand, and trailing zeros. From a decimal to a float every step is an operation on floats,
rounded once.
-/

namespace TypedJson

namespace Decimal

/-! ### From a float -/

/-- An integer times a power of ten, while a float is turned into a decimal. -/
structure Scaled where
  mantissa : Nat
  exponent : Int

/-- Takes `halvings` factors of one half into `m · 10 ^ e`. An even `m` is halved and the ten that
goes with it is put into the exponent; an odd one is multiplied by five while that fits, and is
otherwise halved with the last bit dropped. -/
def takeHalves : (halvings : Nat) → Scaled → Scaled
  | 0, x => x
  | n + 1, ⟨m, e⟩ =>
    if m % 2 = 0 then takeHalves n ⟨m / 2, e + 1⟩
    else if 5 * m < bound then takeHalves n ⟨5 * m, e⟩
    else takeHalves n ⟨m / 2, e + 1⟩

/-- Takes `doublings` factors of two into `m · 10 ^ e`: by doubling while there is room, and by
dividing by five afterwards, which fails where the tens left over are too many to be taken back. -/
def takeDoubles : (doublings : Nat) → Scaled → Option Scaled
  | 0, x => some x
  | n + 1, ⟨m, e⟩ =>
    if 2 * m < bound then takeDoubles n ⟨m * 2, e - 1⟩
    else if 2 * e > ((n + 1 : Nat) : Int) then none
    else takeDoubles n ⟨m / 5, e⟩

/-- Multiplies by `tens` factors of ten, if the result fits. -/
def takeTens : (tens : Nat) → (m : Nat) → Option Nat
  | 0, m => some m
  | n + 1, m => if 10 * m < bound then takeTens n (10 * m) else none

/-- One decimal fewer, rounded half up on the digit given up. -/
def dropDigit (m : Nat) : Nat := if 5 ≤ m % 10 then m / 10 + 1 else m / 10

/-- Gives up `excess` decimals one by one. A mantissa that becomes zero is a zero without
decimals. -/
def dropExcess (scale : Nat) : (excess : Nat) → (m : Nat) → Nat × Nat
  | 0, m => (m, scale)
  | n + 1, m => if m / 10 = 0 then (0, 0) else dropExcess scale n (dropDigit m)

/-- Gives up decimals while the mantissa needs more than the fifty-two fraction bits of a float. -/
def dropNoise : (scale : Nat) → (m : Nat) → Nat × Nat
  | 0, m => (m, 0)
  | s + 1, m => if Binary64.leadingOne ≤ m then dropNoise s (dropDigit m) else (m, s + 1)

/-- Gives up trailing zeros behind the point. -/
def dropZeros : (scale : Nat) → (m : Nat) → Nat × Nat
  | 0, m => (m, 0)
  | s + 1, m => if m % 10 = 0 then dropZeros s (m / 10) else (m, s + 1)

/-- A magnitude `m · 2 ^ e` as an integer and a number of decimals. -/
def rescale? (m : Nat) (e : Int) : Option (Nat × Nat) := do
  let x := takeHalves (-e).toNat ⟨m, e⟩
  let x ← takeDoubles e.toNat x
  let m ← takeTens x.exponent.toNat x.mantissa
  let scale := (-x.exponent).toNat
  -- a decimal has twenty-eight decimals at most
  let (m, scale) := if scale ≤ 28 then (m, scale) else dropExcess 28 (scale - 28) m
  let (m, scale) := dropNoise scale m
  return dropZeros scale m

/-- The decimal that a float is turned into. There is none for infinities, NaN and magnitudes that
ninety-six bits cannot hold. The sign is kept, also of a zero. -/
def ofBinary64? (x : Binary64) : Option Decimal :=
  if !x.isFinite then none
  else if x.isZero then some { zero with negative := x.isNegative }
  else do
    let (m, scale) ← rescale? x.significand x.exponent
    ofParts? x.isNegative m scale

/-! ### To a float -/

/-- The float that a decimal stands for. An integer is rounded directly, and its zero has no sign.
Otherwise whole part and fraction are rounded and added, and the sum is rounded once more to the
number of decimals of the scale, a half going away from zero. -/
def toBinary64 (d : Decimal) : Binary64 :=
  if d.scale = 0 then .ofInt (if d.negative then -(d.mantissa : Int) else d.mantissa)
  else
    let tens := Nat.pow 10 d.scale
    let power := Binary64.nearest tens
    let whole := Binary64.nearest (d.mantissa / tens : Nat)
    -- each part is rounded by itself, so the result is not always the nearest float
    let part := Binary64.nearest (d.mantissa % tens : Nat)
    let fraction := Binary64.nearest (part / power)
    -- a fraction that vanished in rounding leaves nothing to round to the scale
    if fraction = 0 then .ofMagnitude d.negative whole
    else
      let shifted := Binary64.nearest (Binary64.nearest (whole + fraction) * power)
      .ofMagnitude d.negative (Binary64.roundHalfUp shifted / power)

end Decimal

end TypedJson
