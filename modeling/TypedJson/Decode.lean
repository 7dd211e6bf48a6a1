import TypedJson.Access
import TypedJson.Depth
import TypedJson.Value.Text
import TypedJson.Zero

/-!
# TypedJson — from JSON to typed values

`Ty.decode` converts a value to a target type. The target alone directs it: a record takes its
declared fields and drops all other keys, a union is converted only where one member is left once
null is set aside, and there is no guessing between several.

Every container is built by checked writes. A failure inside one is labelled with the field, the key
or the index; only the elements of arrays of scalars go without a label.
-/

namespace TypedJson

/-! ### Scalars -/

/-- Converts to a scalar type. Integers become floats and decimals, floats become decimals, and
everything but null has a text. -/
def ScalarKind.decode (k : ScalarKind) (depth : Depth) (v : Value) : Except Error Value :=
  match k, v with
  | .int, .int i => .ok (.int i)
  | .float, .int i => .ok (.float (.ofInt i.toInt))
  | .float, .float x => .ok (.float x)
  | .decimal, .int i => .ok (.decimal (.ofInt64 i))
  | .decimal, .float x =>
    match Decimal.ofBinary64? x with
    | some d => .ok (.decimal d)
    | none => .error (.notCastable k.name v.typeName)
  | .decimal, .decimal d => .ok (.decimal d)
  | .string, .null => .error (.notCastable k.name v.typeName)
  | .string, .string s => .ok (.string s)
  | .string, v => do
    v.checkNesting depth
    return .string v.text
  | .boolean, .boolean b => .ok (.boolean b)
  | .byte, v => .error (.incompatible k.name v.typeName)
  | k, v => .error (.notCastable k.name v.typeName)

/-! ### Building containers -/

/-- Appends the outcome of a conversion. A failure is labelled with the index. -/
def TypedArray.store (out : TypedArray) (index : Nat) (converted : Except Error Value) :
    Except Error TypedArray :=
  (converted >>= out.push).mapError (.annotate ("[" ++ toString index ++ "]"))

/-- Converts values one by one and appends them, without labels. -/
def TypedArray.collect (convert : Value → Except Error Value) (vs : List Value)
    (out : TypedArray) : Except Error TypedArray :=
  vs.foldlM (fun out v => convert v >>= out.push) out

/-- Converts values one by one and appends them, each failure labelled with the index. -/
def TypedArray.collectLabelled (convert : Value → Except Error Value) :
    (index : Nat) → List Value → TypedArray → Except Error TypedArray
  | _, [], out => .ok out
  | index, v :: rest, out => do
    let out ← out.store index (convert v)
    collectLabelled convert (index + 1) rest out

/-- Puts the outcome of a conversion under a key. A failure is labelled with the key. -/
def TypedMap.store (out : TypedMap) (key : String) (converted : Except Error Value) :
    Except Error TypedMap :=
  (converted >>= out.put key).mapError (.annotate key)

/-- Converts entries one by one and puts them, each failure labelled with the key. -/
def TypedMap.collect (convert : Value → Except Error Value) (entries : List (String × Value))
    (out : TypedMap) : Except Error TypedMap :=
  entries.foldlM (fun out (key, v) => out.store key (convert v)) out

/-- Converts to an array, given the conversion to the element type. Elements of `any` are taken as
they are. -/
def TypedArray.decodeWith (elementType : Ty) (convert : Depth → Value → Except Error Value)
    (depth : Depth) (v : Value) : Except Error TypedArray :=
  match v with
  | .array source => do
    let depth ← depth.enter
    match elementType with
    | .int | .float | .decimal | .string | .boolean =>
      collect (convert depth) source.toList (.empty elementType)
    | .any => return .ofBoxed .any source.toList
    | _ => collectLabelled (convert depth) 0 source.toList (.empty elementType)
  | v => .error (.incompatible "json-array" v.typeName)

/-- Converts to a map, given the conversion of its values. -/
def TypedMap.decodeWith (constraint : Option Ty) (convert : Depth → Value → Except Error Value)
    (depth : Depth) (v : Value) : Except Error TypedMap :=
  match v.asObject? with
  | some source => do
    let depth ← depth.enter
    collect (convert depth) source.entries (.empty (.map constraint))
  | none => .error (.incompatible "json-object" v.typeName)

/-! ### Conversion -/

mutual

/-- Converts a value to a type. -/
def Ty.decode : Ty → Depth → Value → Except Error Value
  | .scalar k, depth, v => k.decode depth v
  | .json, _, v =>
    if Ty.json.admits v then .ok v else .error (.incompatible Ty.json.name v.typeName)
  | .any, _, v => .ok v
  | .null, _, v => if v.isNull then .ok .null else .error (.incompatible Ty.null.name v.typeName)
  | .union members nullable, depth, v =>
    -- null goes first, so that the one member besides it never sees a null
    if v.isNull && nullable then .ok .null
    else match Ty.decodeOnly members depth v with
      -- the failure of the one member is the failure of the union, with no label
      | some converted => converted
      | none => .error (.incompatible (Ty.union members nullable).name v.typeName)
  | .array element, depth, v => (TypedArray.decodeWith element element.decode depth v).map .array
  | .map constraint, depth, v => (Ty.decodeMap constraint depth v).map .map
  | .record r, depth, v => (r.decode depth v).map .map
termination_by structural t => t

/-- Converts to the one type in the list that is not null, if there is just one. -/
def Ty.decodeOnly : List Ty → Depth → Value → Option (Except Error Value)
  | [], _, _ => none
  | t :: rest, depth, v =>
    if t.isNull then Ty.decodeOnly rest depth v
    else if rest.all Ty.isNull then some (t.decode depth v)
    else none
termination_by structural ts => ts

/-- Converts to a map with this constraint. Where the constraint is absent, `any` or `json` the
values are taken as they are, and only the checked write says whether they are allowed. -/
def Ty.decodeMap : Option Ty → Depth → Value → Except Error TypedMap
  | none, depth, v => TypedMap.decodeWith none (fun _ => .ok) depth v
  | some t, depth, v =>
    -- no conversion here, and so no level of depth is spent on what is inside
    TypedMap.decodeWith (some t) (if t.isAny || t.isJson then fun _ => .ok else t.decode) depth v
termination_by structural t => t

/-- Converts to a record: the declared fields in the order of declaration, an absent one with its
default. -/
def RecordTy.decode : RecordTy → Depth → Value → Except Error TypedMap
  | ⟨name, fields, rest⟩, depth, v =>
    match v.asObject? with
    | some source => do
      let depth ← depth.enter
      Field.decodeAll fields depth source (.empty (.record ⟨name, fields, rest⟩))
    | none => .error (.incompatible "json-object" v.typeName)
termination_by structural r => r

def Field.decodeAll : List (String × Field) → Depth → (source out : TypedMap) →
    Except Error TypedMap
  | [], _, _, out => .ok out
  | (key, field) :: rest, depth, source, out => do
    -- the default is put like any other value, checks included
    let out ← out.store key (field.decode depth (source.get? key))
    Field.decodeAll rest depth source out
termination_by structural fields => fields

/-- Converts the value of a field, or takes the default where there is none. -/
def Field.decode : Field → Depth → Option Value → Except Error Value
  | ⟨ty, _⟩, depth, some v => ty.decode depth v
  | ⟨_, default⟩, _, none => .ok default
termination_by structural field => field

end

/-- A list of members is converted to the only one that is not null, if it is the only one. -/
theorem Ty.decodeOnly_eq (members : List Ty) (depth : Depth) (v : Value) :
    Ty.decodeOnly members depth v = match Ty.nonNull members with
      | [only] => some (only.decode depth v)
      | _ => none := by
  induction members with
  | nil => rfl
  | cons t rest ih =>
    by_cases h : t.isNull
    · simp [Ty.decodeOnly, Ty.nonNull, h] at ih ⊢
      exact ih
    · -- the head is not null: it is the only one exactly if all others are
      cases hr : Ty.nonNull rest with
      | nil =>
        have all : rest.all Ty.isNull = true := by
          simpa [Ty.nonNull, List.filter_eq_nil_iff] using hr
        simp only [Ty.nonNull] at hr
        simp [Ty.decodeOnly, Ty.nonNull, h, all, hr]
      | cons u us =>
        have mem : u ∈ Ty.nonNull rest := hr ▸ List.mem_cons_self
        have some : rest.all Ty.isNull = false := by
          obtain ⟨hu, hn⟩ := List.mem_filter.mp mem
          exact List.all_eq_false.mpr ⟨u, hu, by simpa using hn⟩
        simp only [Ty.nonNull] at hr
        simp [Ty.decodeOnly, Ty.nonNull, h, some, hr]

/-- An absent field takes its default. -/
@[simp] theorem Field.decode_none (field : Field) (depth : Depth) :
    field.decode depth none = .ok field.default := by
  cases field
  rfl

/-- A present field is converted to its type. -/
@[simp] theorem Field.decode_some (field : Field) (depth : Depth) (v : Value) :
    field.decode depth (some v) = field.ty.decode depth v := by
  cases field
  rfl

/-- The fields are put one by one. -/
theorem Field.decodeAll_eq_foldlM (fields : List (String × Field)) (depth : Depth)
    (source out : TypedMap) :
    Field.decodeAll fields depth source out = fields.foldlM
      (fun out f => out.store f.1 (f.2.decode depth (source.get? f.1))) out := by
  induction fields generalizing out with
  | nil => rfl
  | cons f rest ih =>
    -- the accumulator changes along the way, so the induction is over every one of them
    simp only [Field.decodeAll, List.foldlM_cons]
    cases out.store f.1 (f.2.decode depth (source.get? f.1)) with
    | error e => rfl
    | ok out => exact ih out

/-- A record takes its fields one by one from an object. -/
theorem RecordTy.decode_eq (r : RecordTy) (depth : Depth) (v : Value) :
    r.decode depth v = match v.asObject? with
      | some source => depth.enter >>= fun inner => r.fields.foldlM
        (fun out f => out.store f.1 (f.2.decode inner (source.get? f.1))) (.empty (.record r))
      | none => .error (.incompatible "json-object" v.typeName) := by
  cases r
  rw [decode]
  cases v.asObject? with
  | none => rfl
  | some source => exact bind_congr fun inner => Field.decodeAll_eq_foldlM _ inner source _

/-- Converts to an array of that element type. -/
def TypedArray.decode (elementType : Ty) (depth : Depth) (v : Value) : Except Error TypedArray :=
  decodeWith elementType elementType.decode depth v

/-- Converts to a map with that constraint. -/
def TypedMap.decode (constraint : Option Ty) (depth : Depth) (v : Value) : Except Error TypedMap :=
  Ty.decodeMap constraint depth v

end TypedJson
