/-!
# TypedJson — positional decimal text

Digits with a fixed number of decimals and never an exponent. Every number of this library is
written through `fixedPoint`: an integer has no decimals, a decimal as many as its scale says, and a
float those that its shortest digits need.
-/

namespace TypedJson

/-- A minus sign in front of a text, where one is due. -/
def signed (negative : Bool) (text : List Char) : List Char :=
  if negative then '-' :: text else text

/-- The digits of a number with zeros in front, at least `width` of them. -/
def paddedDigits (n width : Nat) : List Char :=
  let digits := Nat.toDigits 10 n
  List.replicate (width - digits.length) '0' ++ digits

/-- The text of `mantissa / 10 ^ places`: the integer digits, at least one, and exactly `places`
decimals behind a point. -/
def fixedPoint (mantissa places : Nat) : List Char :=
  let digits := paddedDigits mantissa (places + 1)
  let whole := digits.length - places
  if places = 0 then digits else digits.take whole ++ '.' :: digits.drop whole

/-- The text of an integer. -/
def integerText (n : Int) : List Char := signed (n < 0) (fixedPoint n.natAbs 0)

end TypedJson
