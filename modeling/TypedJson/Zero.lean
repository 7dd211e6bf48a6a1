import TypedJson.Basic

/-!
# TypedJson — zero values and record types

Every type has a zero value: the default of a record field that names none. A record's zero holds
the defaults of its fields, which are taken as they are; whether a default fits its field is not
checked when the record type is declared.
-/

namespace TypedJson

mutual

/-- The zero value of a type. A union takes null if it is nullable and the zero of its first member
otherwise. -/
def Ty.zero : Ty → Value
  | .scalar k => .scalar (Scalar.zero k)
  | .json => .null
  | .any => .null
  | .null => .null
  | .union members nullable => if nullable then .null else Ty.zeroOfFirst members
  | .array element => .array (.empty element)
  | .map constraint => .map (.empty (.map constraint))
  | .record r =>
    .map ⟨.record r, r.fields.map fun (key, field) => (key, field.default), false⟩
termination_by structural t => t

def Ty.zeroOfFirst : List Ty → Value
  | [] => .null
  | t :: _ => t.zero
termination_by structural ts => ts

end

/-- A field whose default is the zero value of its type. -/
def Field.ofTy (ty : Ty) : Field := ⟨ty, ty.zero⟩

namespace RecordTy

/-- The record type of that name without fields, which allows no other keys. -/
def named (name : String) : RecordTy := ⟨name, [], none⟩

/-- Declares a field. A field that was declared before is replaced where it stands. -/
def declare (r : RecordTy) (key : String) (field : Field) : RecordTy :=
  { r with fields := Entries.insert r.fields key field }

/-- Declares a field whose default is the zero value of its type. -/
def field (r : RecordTy) (key : String) (ty : Ty) : RecordTy := r.declare key (.ofTy ty)

/-- Declares a field with a default of its own. -/
def fieldWithDefault (r : RecordTy) (key : String) (ty : Ty) (default : Value) : RecordTy :=
  r.declare key ⟨ty, default⟩

/-- Allows all other keys, with values of type `ty`. -/
def withRest (r : RecordTy) (ty : Ty) : RecordTy := { r with rest := some ty }

end RecordTy

end TypedJson
