import TypedJson.Number.Conversion
import TypedJson.Number.Shortest

/-!
# TypedJson — scalars

The values without parts, one variant for each scalar type. A byte is a type of its own and not a
small integer: the two are never equal, although an integer type admits both.
-/

namespace TypedJson

/-- The types of scalars. -/
inductive ScalarKind where
  | int
  | float
  | decimal
  | string
  | boolean
  | byte
  deriving DecidableEq

/-- A value without parts. -/
inductive Scalar where
  | int (i : Int64)
  | float (x : Binary64)
  | decimal (d : Decimal)
  | string (s : String)
  | boolean (b : Bool)
  | byte (b : UInt8)
  deriving DecidableEq

/-- The name of a scalar type. -/
def ScalarKind.name : ScalarKind → String
  | .int => "int"
  | .float => "float"
  | .decimal => "decimal"
  | .string => "string"
  | .boolean => "boolean"
  | .byte => "byte"

/-- Scalar types that a JSON document has values of. A byte is none of them: it passes for an
integer where one is stored, but it is not converted to JSON. -/
def ScalarKind.isJson (k : ScalarKind) : Bool := k != .byte

namespace Scalar

/-- The type of a scalar. -/
def kind : Scalar → ScalarKind
  | int _ => .int
  | float _ => .float
  | decimal _ => .decimal
  | string _ => .string
  | boolean _ => .boolean
  | byte _ => .byte

/-- Equality of scalars: numeric within floats and within decimals, and never across variants. -/
def numEq : Scalar → Scalar → Bool
  | int i, int j => i == j
  | float x, float y => x == y
  | decimal d, decimal e => d == e
  | string s, string t => s == t
  | boolean a, boolean b => a == b
  | byte a, byte b => a == b
  | _, _ => false

instance : BEq Scalar := ⟨numEq⟩

/-- The text of a scalar by itself; a string is written raw. -/
def text : Scalar → List Char
  | int i => integerText i.toInt
  | float x => x.text
  | decimal d => d.text
  | string s => s.toList
  | boolean true => ['t', 'r', 'u', 'e']
  | boolean false => ['f', 'a', 'l', 's', 'e']
  | byte b => integerText b.toNat

/-- A zero of the type: `0`, the empty string or `false`. -/
def zero : ScalarKind → Scalar
  | .int => int 0
  | .float => float ⟨0⟩
  | .decimal => decimal .zero
  | .string => string ""
  | .boolean => boolean false
  | .byte => byte 0

/-- Whether a scalar may be stored where the type `k` is expected: it has that type, or it is a byte
for an integer, or an integer of at most eight bits for a byte. -/
def hasKind (k : ScalarKind) (s : Scalar) : Bool :=
  match k, s with
  | .int, byte _ => true
  | .byte, int i => 0 ≤ i.toInt && i.toInt ≤ 255
  | k, s => s.kind == k

/-- The form in which an element type stores a scalar that it admits, so that a reader sees integers
only in an array of integers and bytes only in an array of bytes. -/
def normalize (k : ScalarKind) (s : Scalar) : Scalar :=
  match k, s with
  | .int, byte b => int (.ofNat b.toNat)
  | .byte, int i => if 0 ≤ i.toInt ∧ i.toInt ≤ 255 then byte (.ofNat i.toInt.toNat) else int i
  | _, s => s

end Scalar

end TypedJson
