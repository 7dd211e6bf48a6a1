/-!
# TypedJson — quoted text

How strings and keys are written inside containers: between double quotes, with the quote, the
backslash and every character below U+0020 escaped and nothing else. Five of the control characters
have a short escape, the others are written as `\u00xx` in lower case.
-/

namespace TypedJson

namespace Quoted

/-- The last two digits of a `\u00xx` escape. -/
def hexPair (n : Nat) : List Char := [Nat.digitChar (n / 16), Nat.digitChar (n % 16)]

/-- What is written for one character between the quotes. -/
def escape (c : Char) : List Char :=
  match c with
  | '"' => ['\\', '"']
  | '\\' => ['\\', '\\']
  | '\x08' => ['\\', 'b']
  | '\x0c' => ['\\', 'f']
  | '\n' => ['\\', 'n']
  | '\r' => ['\\', 'r']
  | '\t' => ['\\', 't']
  | c => if c.toNat < 0x20 then '\\' :: 'u' :: '0' :: '0' :: hexPair c.toNat else [c]

end Quoted

/-- A text between quotes. -/
def quoted (text : List Char) : List Char := '"' :: (text.flatMap Quoted.escape ++ ['"'])

end TypedJson
