import TypedJson.Error
import TypedJson.Basic

/-!
# TypedJson — JSON documents

The tree of a JSON document, read into a value and written from one. Its numbers are integers of
sixty-four bits, signed or unsigned, and finite floats; a value with a number that is none of these
has no document.
-/

namespace TypedJson

/-- A number of a JSON document. -/
inductive JsonNumber where
  | int (n : Int) (least : -0x8000000000000000 ≤ n) (most : n < 0x10000000000000000)
  | float (x : Binary64) (finite : x.isFinite = true)
  deriving DecidableEq

/-- A JSON document. -/
inductive Json where
  | null
  | bool (b : Bool)
  | number (n : JsonNumber)
  | string (s : String)
  | array (items : List Json)
  | object (entries : List (String × Json))

namespace JsonNumber

/-- The integer as a number, if it is in range. -/
def ofInt? (n : Int) : Option JsonNumber :=
  if h : -0x8000000000000000 ≤ n ∧ n < 0x10000000000000000 then some (.int n h.1 h.2) else none

/-- The float as a number, if it is finite. -/
def ofFloat? (x : Binary64) : Option JsonNumber :=
  if h : x.isFinite = true then some (.float x h) else none

/-- The number of an integer value. -/
def ofInt64 (i : Int64) : JsonNumber :=
  .int i.toInt i.le_toInt (by have := i.toInt_lt; omega)

/-- The number of a byte. -/
def ofByte (b : UInt8) : JsonNumber :=
  .int b.toNat (by omega) (by have := b.toNat_lt; omega)

/-- The scalar of a number. An integer beyond the signed range becomes the nearest float. -/
def toScalar : JsonNumber → Scalar
  | .int n _ _ => if n < 0x8000000000000000 then .int (.ofInt n) else .float (.ofInt n)
  | .float x _ => .float x

end JsonNumber

/-! ### Reading -/

mutual

/-- The value of a document: objects become JSON objects, arrays become arrays of `json`. -/
def Json.toValue : Json → Value
  | .null => .null
  | .bool b => .boolean b
  | .number n => .scalar n.toScalar
  | .string s => .string s
  | .array items => .array (.ofBoxed .json (Json.toValues items))
  | .object entries => .map ⟨.json, Json.toEntries entries, false⟩
termination_by structural j => j

def Json.toValues : List Json → List Value
  | [] => []
  | item :: rest => item.toValue :: Json.toValues rest
termination_by structural items => items

def Json.toEntries : List (String × Json) → List (String × Value)
  | [] => []
  | (key, item) :: rest => (key, item.toValue) :: Json.toEntries rest
termination_by structural entries => entries

end

/-- The five loops of the two recursions, as loops: here the one over the items of a document. -/
theorem Json.toValues_eq_map (items : List Json) : Json.toValues items = items.map toValue := by
  induction items with
  | nil => rfl
  | cons item rest ih => simp [Json.toValues, ih]

/-- The same for entries, where keys stay as they are and in order. -/
theorem Json.toEntries_eq_map (entries : List (String × Json)) :
    Json.toEntries entries = entries.map fun e => (e.1, e.2.toValue) := by
  induction entries with
  | nil => rfl
  | cons e rest ih => simp [Json.toEntries, ih]

/-! ### Writing -/

/-- A scalar as a document. Floats that are not finite have none, and neither does a decimal whose
float is not finite. -/
def Scalar.toJson (s : Scalar) : Except Error Json :=
  let number (x : Binary64) : Except Error Json :=
    match JsonNumber.ofFloat? x with
    | some n => .ok (.number n)
    | none => .error (.incompatible "json" s.kind.name)
  match s with
  | .int i => .ok (.number (.ofInt64 i))
  | .float x => number x
  | .decimal d => number d.toBinary64
  | .string s => .ok (.string s)
  | .boolean b => .ok (.bool b)
  | .byte b => .ok (.number (.ofByte b))

mutual

/-- The document of a value, whatever types it was declared with. -/
def Value.toJson : Value → Except Error Json
  | .null => .ok .null
  | .scalar s => s.toJson
  | .array a => a.toJson
  | .map m => m.toJson
termination_by structural v => v

def TypedArray.toJson : TypedArray → Except Error Json
  | ⟨_, storage, _⟩ => do return .array (← storage.toJson)
termination_by structural a => a

def Storage.toJson : Storage → Except Error (List Json)
  | .packed column => column.toScalars.mapM Scalar.toJson
  | .boxed elements => Value.allToJson elements
termination_by structural s => s

def TypedMap.toJson : TypedMap → Except Error Json
  | ⟨_, entries, _⟩ => do return .object (← Value.entriesToJson entries)
termination_by structural m => m

def Value.allToJson : List Value → Except Error (List Json)
  | [] => .ok []
  | v :: rest => do
    let item ← v.toJson
    return item :: (← Value.allToJson rest)
termination_by structural vs => vs

def Value.entriesToJson : List (String × Value) → Except Error (List (String × Json))
  | [] => .ok []
  | (key, v) :: rest => do
    let item ← v.toJson
    return (key, item) :: (← Value.entriesToJson rest)
termination_by structural es => es

end

/-- The loop over elements, which stops at the first one that is no JSON. -/
theorem Value.allToJson_eq_mapM (vs : List Value) : Value.allToJson vs = vs.mapM toJson := by
  induction vs with
  | nil => rfl
  | cons v rest ih => simp [Value.allToJson, ih, List.mapM_cons]

theorem Value.entriesToJson_eq_mapM (es : List (String × Value)) :
    Value.entriesToJson es = es.mapM fun e => return (e.1, ← e.2.toJson) := by
  induction es with
  | nil => rfl
  | cons e rest ih => simp [Value.entriesToJson, ih, List.mapM_cons]

/-- A storage has a document through its elements only. -/
theorem Storage.toJson_eq_mapM (s : Storage) : s.toJson = s.toList.mapM Value.toJson := by
  cases s with
  | packed column =>
    rw [toJson, toList, List.mapM_map]
    rfl
  | boxed elements => exact Value.allToJson_eq_mapM elements

/-! ### Writing container by container -/

/-- An array is exported through its elements: neither its element type, its storage nor its flag is
seen. -/
theorem Value.toJson_array (a : TypedArray) :
    (Value.array a).toJson = (a.toList.mapM toJson).map .array := by
  cases a
  rw [toJson, TypedArray.toJson, Storage.toJson_eq_mapM]
  rfl

/-- The entry of an object for the entry of a map. -/
def Value.entryToJson (e : String × Value) : Except Error (String × Json) :=
  e.2.toJson.map fun item => (e.1, item)

/-- A map is exported through its entries, a record like any other map. -/
theorem Value.toJson_map (m : TypedMap) :
    (Value.map m).toJson = (m.entries.mapM Value.entryToJson).map .object := by
  cases m
  rw [toJson, TypedMap.toJson, Value.entriesToJson_eq_mapM]
  rfl

end TypedJson
