import TypedJson.Basic

/-!
# TypedJson — equality of types and values

`==` on types and values is numeric at the leaves (a NaN equals nothing, `1.0` equals `1.00`) and
forgets what no reader should depend on: the storage of an array, the freeze flags, the order of a
map's entries and of a record's fields. The order of array elements and of union members counts.

The recursion is on the left operand alone. The right one is looked at through its views, the
element list of an array and the look-up of a key.
-/

namespace TypedJson

/-- A column's scalars against a list of values, position by position. -/
def Scalar.numEqAll : List Scalar → List Value → Bool
  | [], [] => true
  | s :: ss, .scalar t :: vs => s == t && numEqAll ss vs
  | _, _ => false

mutual

/-- Equality of types. -/
def Ty.numEq : Ty → Ty → Bool
  | .scalar k, .scalar l => k == l
  | .json, .json => true
  | .any, .any => true
  | .null, .null => true
  | .union ms n, .union ms' n' => Ty.numEqAll ms ms' && n == n'
  | .array e, .array e' => e.numEq e'
  | .map c, .map c' => Ty.numEqOption c c'
  | .record r, .record r' => r.numEq r'
  | _, _ => false
termination_by structural x => x

def Ty.numEqAll : List Ty → List Ty → Bool
  | [], [] => true
  | t :: ts, u :: us => t.numEq u && Ty.numEqAll ts us
  | _, _ => false
termination_by structural x => x

def Ty.numEqOption : Option Ty → Option Ty → Bool
  | none, none => true
  | some t, some u => t.numEq u
  | _, _ => false
termination_by structural x => x

/-- Equality of record types: the same name, as many fields, each under its key equal, and equal
types for all other keys. -/
def RecordTy.numEq : RecordTy → RecordTy → Bool
  | ⟨name, fields, rest⟩, r =>
    name == r.name && fields.length == r.fields.length && Field.numEqIn fields r.fields
      && Ty.numEqOption rest r.rest
termination_by structural x => x

/-- Whether each of the fields has an equal one under its key on the other side. -/
def Field.numEqIn : List (String × Field) → List (String × Field) → Bool
  | [], _ => true
  | (key, field) :: rest, others =>
    (match others.lookup key with
      | some other => field.numEq other
      | none => false) && Field.numEqIn rest others
termination_by structural x => x

def Field.numEq : Field → Field → Bool
  | ⟨ty, default⟩, f => ty.numEq f.ty && default.numEq f.default
termination_by structural x => x

/-- Equality of values. -/
def Value.numEq : Value → Value → Bool
  | .null, .null => true
  | .scalar s, .scalar t => s == t
  | .array a, .array b => a.numEq b
  | .map m, .map n => m.numEq n
  | _, _ => false
termination_by structural x => x

/-- Equality of arrays: equal element types and equal elements. -/
def TypedArray.numEq : TypedArray → TypedArray → Bool
  | ⟨elementType, storage, _⟩, b => elementType.numEq b.elementType && storage.numEq b.toList
termination_by structural x => x

def Storage.numEq : Storage → List Value → Bool
  | .packed column, vs => Scalar.numEqAll column.toScalars vs
  | .boxed elements, vs => Value.numEqAll elements vs
termination_by structural x => x

/-- Equality of maps: equal types, as many entries, each under its key equal. -/
def TypedMap.numEq : TypedMap → TypedMap → Bool
  | ⟨ty, entries, _⟩, n =>
    ty.numEq n.ty && entries.length == n.entries.length && Value.numEqIn entries n.entries
termination_by structural x => x

def Value.numEqAll : List Value → List Value → Bool
  | [], [] => true
  | v :: vs, w :: ws => v.numEq w && Value.numEqAll vs ws
  | _, _ => false
termination_by structural x => x

/-- Whether each of the entries has an equal one under its key on the other side. -/
def Value.numEqIn : List (String × Value) → List (String × Value) → Bool
  | [], _ => true
  | (key, v) :: rest, others =>
    (match others.lookup key with
      | some w => v.numEq w
      | none => false) && Value.numEqIn rest others
termination_by structural x => x

end

instance : BEq Ty := ⟨Ty.numEq⟩
instance : BEq RecordTy := ⟨RecordTy.numEq⟩
instance : BEq Field := ⟨Field.numEq⟩
instance : BEq Value := ⟨Value.numEq⟩
instance : BEq TypedArray := ⟨TypedArray.numEq⟩
instance : BEq TypedMap := ⟨TypedMap.numEq⟩

/-! ### Storage does not matter -/

/-- Lists of scalars are compared as columns compare them. This is where the storage of an array
drops out of equality. -/
theorem Value.numEqAll_map_scalar (ss : List Scalar) (vs : List Value) :
    Value.numEqAll (ss.map .scalar) vs = Scalar.numEqAll ss vs := by
  induction ss generalizing vs with
  | nil => cases vs <;> rfl
  | cons s ss ih =>
    cases vs with
    | nil => rfl
    | cons v vs => cases v <;> simp [Value.numEqAll, Scalar.numEqAll, Value.numEq, ih]

/-- Equality reads a storage through its elements only. -/
theorem Storage.numEq_eq (s : Storage) (vs : List Value) :
    s.numEq vs = Value.numEqAll s.toList vs := by
  cases s with
  | packed column => simp [Storage.numEq, Storage.toList, Value.numEqAll_map_scalar]
  | boxed elements => simp [Storage.numEq, Storage.toList]

end TypedJson
