import TypedJson.Column
import TypedJson.Entries

/-!
# TypedJson — types and values

A value is null, a scalar, an array or a map. Arrays and maps carry the type they were declared with
and a flag that forbids to change them; one model so covers both an open JSON document and a value
that was converted to a type.

Types and values refer to each other: a record type holds the default of each of its fields, and a
container holds its own type. Hence the one mutual block. Keyed data is plain `Entries` here; that
keys are distinct is kept by every operation and stated as a predicate where a theorem needs it,
because a nested inductive type cannot carry that proof itself.
-/

namespace TypedJson

mutual

/-- A type of values. -/
inductive Ty where
  | scalar (kind : ScalarKind)
  /-- Every value that is JSON. -/
  | json
  /-- Every value. -/
  | any
  | null
  /-- A value of one of the members. The flag decides what happens to a null; as a rule it says
  whether `null` is a member, but it is set on its own. -/
  | union (members : List Ty) (nullable : Bool)
  | array (element : Ty)
  /-- A map whose values are of one type, or of any where there is no constraint. -/
  | map (constraint : Option Ty)
  | record (record : RecordTy)

/-- A named type of maps with declared fields. -/
structure RecordTy where
  name : String
  /-- The declared fields, in the order of declaration. -/
  fields : List (String × Field)
  /-- The type of all other keys; without one, other keys are not allowed. -/
  rest : Option Ty

/-- A declared field. -/
structure Field where
  ty : Ty
  /-- Stands in where a source has no such key. -/
  default : Value

/-- A value. -/
inductive Value where
  | null
  | scalar (s : Scalar)
  | array (a : TypedArray)
  | map (m : TypedMap)

/-- A list of values with a declared element type. -/
structure TypedArray where
  elementType : Ty
  storage : Storage
  frozen : Bool

/-- How the elements of an array are kept: as a column, without their tags, or as they are. No
reader can tell the two apart. -/
inductive Storage where
  | packed (column : Column)
  | boxed (elements : List Value)

/-- A JSON object, a map or a record, as its type says. -/
structure TypedMap where
  ty : Ty
  entries : List (String × Value)
  frozen : Bool

end

/-! ### Short names -/

namespace Ty

@[match_pattern] abbrev int : Ty := .scalar .int
@[match_pattern] abbrev float : Ty := .scalar .float
@[match_pattern] abbrev decimal : Ty := .scalar .decimal
@[match_pattern] abbrev string : Ty := .scalar .string
@[match_pattern] abbrev boolean : Ty := .scalar .boolean
@[match_pattern] abbrev byte : Ty := .scalar .byte

def isNull : Ty → Bool
  | .null => true
  | _ => false

/-- The union of these members; it is nullable if `null` is one of them. -/
def unionOf (members : List Ty) : Ty := .union members (members.any isNull)

/-- The union of a type and `null`. -/
def optional (t : Ty) : Ty := .union [t, .null] true

/-- A map whose values are of type `t`. -/
abbrev mapOf (t : Ty) : Ty := .map (some t)

/-- A map without a constraint. -/
abbrev openMap : Ty := .map none

end Ty

namespace Value

@[match_pattern] abbrev int (i : Int64) : Value := .scalar (.int i)
@[match_pattern] abbrev float (x : Binary64) : Value := .scalar (.float x)
@[match_pattern] abbrev decimal (d : Decimal) : Value := .scalar (.decimal d)
@[match_pattern] abbrev string (s : String) : Value := .scalar (.string s)
@[match_pattern] abbrev boolean (b : Bool) : Value := .scalar (.boolean b)
@[match_pattern] abbrev byte (b : UInt8) : Value := .scalar (.byte b)

/-- Whether a value is null. -/
def isNull : Value → Bool
  | .null => true
  | _ => false

theorem eq_null_of_isNull {v : Value} (h : v.isNull = true) : v = .null := by
  cases v with
  | null => rfl
  | _ => cases h

end Value

/-! ### What kind of type -/

namespace Ty

def isJson : Ty → Bool
  | .json => true
  | _ => false

def isAny : Ty → Bool
  | .any => true
  | _ => false

def isUnion : Ty → Bool
  | .union _ _ => true
  | _ => false

/-- Types whose values are single JSON scalars. -/
def isJsonScalar : Ty → Bool
  | .scalar k => k.isJson
  | _ => false

/-- Element types whose arrays are kept as columns. -/
def isPacked : Ty → Bool
  | .scalar k => (Column.empty? k).isSome
  | _ => false

/-- Types of maps: JSON objects, maps and records. -/
def isMapping : Ty → Bool
  | .json | .map _ | .record _ => true
  | _ => false

/-- The members of a union other than `null`, in order. -/
def nonNull (members : List Ty) : List Ty := members.filter (!·.isNull)

theorem mem_of_nonNull {members : List Ty} {only : Ty} (h : nonNull members = [only]) :
    only ∈ members := by
  have hmem : only ∈ nonNull members := h ▸ List.mem_singleton_self only
  exact (List.mem_filter.mp hmem).1

end Ty

/-! ### Looking into containers -/

namespace Storage

/-- The elements in order. -/
def toList : Storage → List Value
  | .packed column => column.toScalars.map .scalar
  | .boxed elements => elements

def isPacked : Storage → Bool
  | .packed _ => true
  | .boxed _ => false

end Storage

namespace TypedArray

/-- The elements in order, whatever the storage. -/
def toList (a : TypedArray) : List Value := a.storage.toList

def size (a : TypedArray) : Nat := a.toList.length

/-- The element at a position. -/
def get? (a : TypedArray) (i : Nat) : Option Value := a.toList[i]?

/-- The empty array of an element type, packed where that type has columns. -/
def empty (elementType : Ty) : TypedArray :=
  let storage := match elementType with
    | .scalar k => match Column.empty? k with
      | some column => .packed column
      | none => .boxed []
    | _ => .boxed []
  ⟨elementType, storage, false⟩

/-- The empty array of an element type, never packed. -/
def emptyBoxed (elementType : Ty) : TypedArray := ⟨elementType, .boxed [], false⟩

/-- An array of unpacked elements that are not checked. -/
def ofBoxed (elementType : Ty) (elements : List Value) : TypedArray :=
  ⟨elementType, .boxed elements, false⟩

/-- A new array has no elements, whether it starts with a column or without. -/
@[simp] theorem toList_empty (elementType : Ty) : (empty elementType).toList = [] := by
  unfold empty toList
  split
  · split
    · rename_i h
      simp [Storage.toList, Column.toScalars_empty h]
    · rfl
  · rfl

@[simp] theorem toList_emptyBoxed (elementType : Ty) : (emptyBoxed elementType).toList = [] := rfl

@[simp] theorem toList_ofBoxed (elementType : Ty) (elements : List Value) :
    (ofBoxed elementType elements).toList = elements := rfl

@[simp] theorem elementType_empty (elementType : Ty) :
    (empty elementType).elementType = elementType := rfl

@[simp] theorem elementType_ofBoxed (elementType : Ty) (elements : List Value) :
    (ofBoxed elementType elements).elementType = elementType := rfl

end TypedArray

namespace TypedMap

/-- The empty map of a type. It should be the type of JSON objects, a map type or a record type;
under any other type the entries are not checked. -/
def empty (ty : Ty) : TypedMap := ⟨ty, [], false⟩

def size (m : TypedMap) : Nat := m.entries.length

/-- The keys in insertion order. -/
def keys (m : TypedMap) : List String := Entries.keys m.entries

/-- The value under a key. -/
def get? (m : TypedMap) (key : String) : Option Value := m.entries.lookup key

def hasKey (m : TypedMap) (key : String) : Bool := Entries.hasKey m.entries key

end TypedMap

namespace RecordTy

/-- The declared field of that name. -/
def field? (r : RecordTy) (key : String) : Option Field := r.fields.lookup key

/-- The type that a value under `key` must have, if the key is allowed at all. -/
def typeForKey? (r : RecordTy) (key : String) : Option Ty :=
  match r.field? key with
  | some field => some field.ty
  | none => r.rest

end RecordTy

namespace Value

/-- The type that a value carries: its own for a container, that of its variant otherwise. -/
def typeOf : Value → Ty
  | .null => .null
  | .scalar s => .scalar s.kind
  | .array a => .array a.elementType
  | .map m => m.ty

/-- Whether a value is a container that may not be changed. -/
def isFrozen : Value → Bool
  | .array a => a.frozen
  | .map m => m.frozen
  | _ => false

def asBool? : Value → Option Bool
  | .boolean b => some b
  | _ => none

/-- The integer of an integer or of a byte. -/
def asInt? : Value → Option Int64
  | .int i => some i
  | .byte b => some (.ofNat b.toNat)
  | _ => none

def asFloat? : Value → Option Binary64
  | .float x => some x
  | _ => none

def asString? : Value → Option String
  | .string s => some s
  | _ => none

def asArray? : Value → Option TypedArray
  | .array a => some a
  | _ => none

def asMap? : Value → Option TypedMap
  | .map m => some m
  | _ => none

/-- What is seen as an array is that array, so that nothing is lost on the way out and back in. -/
theorem asArray?_eq_some_iff {v : Value} {a : TypedArray} : v.asArray? = some a ↔ v = .array a := by
  cases v <;> simp [asArray?]

theorem asMap?_eq_some_iff {v : Value} {m : TypedMap} : v.asMap? = some m ↔ v = .map m := by
  cases v <;> simp [asMap?]

end Value

end TypedJson
