import TypedJson.Decode

/-!
# TypedJson — from typed values to JSON

Arrays are rebuilt as arrays of `json`, maps and records as maps of a target type, which is `json`
but where the caller names another. A JSON object inside is passed on as it is. Direction comes from
the values, not from a schema: bytes have no JSON form, and the scalars of an array pass only if the
declared element type is JSON throughout.
-/

namespace TypedJson

/-- A scalar as JSON, where scalars may pass. -/
def Scalar.encode (allowed : Bool) (s : Scalar) : Except Error Value :=
  if allowed && s.kind.isJson then .ok (.scalar s)
  else .error (.incompatible Ty.json.name s.kind.name)

mutual

/-- Converts an element of an array; `allowed` says whether its scalars may pass. -/
def Value.encodeElement : Value → (allowed : Bool) → Depth → Except Error Value
  | .null, _, _ => .ok .null
  | .scalar s, allowed, _ => s.encode allowed
  | .array a, _, depth => (a.encode depth).map .array
  | .map m, _, depth => m.encode .json depth
termination_by structural v => v

/-- Converts the value of an entry; maps inside become maps of type `target`. -/
def Value.encodeEntry : Value → (target : Ty) → Depth → Except Error Value
  | .null, _, _ => .ok .null
  | .scalar s, _, _ => s.encode true
  | .array a, _, depth => (a.encode depth).map .array
  | .map m, target, depth => m.encode target depth
termination_by structural v => v

/-- Rebuilds an array as an array of `json`. Elements of the element types `int`, `float`, `boolean`
and `string` are copied in one pass. -/
def TypedArray.encode : TypedArray → Depth → Except Error TypedArray
  | ⟨elementType, storage, _⟩, depth => do
    let depth ← depth.enter
    match elementType with
    | .int | .float | .boolean | .string => return .ofBoxed .json storage.toList
    | _ => return .ofBoxed .json (← storage.encode elementType.isJsonCompatible depth)
termination_by structural a => a

def Storage.encode : Storage → (allowed : Bool) → Depth → Except Error (List Value)
  | .packed column, allowed, _ => column.toScalars.mapM (Scalar.encode allowed)
  | .boxed elements, allowed, depth => Value.encodeAll elements allowed depth
termination_by structural s => s

/-- A map inside a container: a JSON object as it is, a map or a record rebuilt. -/
def TypedMap.encode : TypedMap → (target : Ty) → Depth → Except Error Value
  | ⟨ty, entries, frozen⟩, target, depth =>
    match ty with
    | .json => .ok (.map ⟨ty, entries, frozen⟩)
    | .map _ | .record _ => do
      let depth ← depth.enter
      return .map (← Value.encodeEntries entries target depth (.empty target))
    | _ => .error (.incompatible Ty.json.name ty.name)
termination_by structural m => m

def Value.encodeAll : List Value → (allowed : Bool) → Depth → Except Error (List Value)
  | [], _, _ => .ok []
  | v :: rest, allowed, depth => do
    let w ← v.encodeElement allowed depth
    return w :: (← Value.encodeAll rest allowed depth)
termination_by structural vs => vs

/-- Converts entries one by one and puts them into `out`, each failure labelled with the key. -/
def Value.encodeEntries : List (String × Value) → (target : Ty) → Depth → (out : TypedMap) →
    Except Error TypedMap
  | [], _, _, out => .ok out
  | (key, v) :: rest, target, depth, out => do
    let out ← out.store key (v.encodeEntry target depth)
    Value.encodeEntries rest target depth out
termination_by structural es => es

end

/-- The loop over elements, which stops at the first that cannot be converted. -/
theorem Value.encodeAll_eq_mapM (vs : List Value) (allowed : Bool) (depth : Depth) :
    Value.encodeAll vs allowed depth = vs.mapM (·.encodeElement allowed depth) := by
  induction vs with
  | nil => rfl
  | cons v rest ih => simp [Value.encodeAll, ih, List.mapM_cons]

/-- A storage is converted through its elements only. -/
theorem Storage.encode_eq_mapM (s : Storage) (allowed : Bool) (depth : Depth) :
    s.encode allowed depth = s.toList.mapM (·.encodeElement allowed depth) := by
  cases s with
  | packed column =>
    rw [encode, toList, List.mapM_map]
    rfl
  | boxed elements => exact Value.encodeAll_eq_mapM elements allowed depth

/-- An array is converted through its elements and its element type only. -/
theorem TypedArray.encode_eq (a : TypedArray) (depth : Depth) :
    a.encode depth = do
      let inner ← depth.enter
      match a.elementType with
      | .int | .float | .boolean | .string => return .ofBoxed .json a.toList
      | t =>
        return .ofBoxed .json (← a.toList.mapM (·.encodeElement t.isJsonCompatible inner)) := by
  cases a
  rw [encode, toList]
  refine bind_congr fun inner => ?_
  split <;> simp only [Storage.encode_eq_mapM]

/-- The entries are put one by one. -/
theorem Value.encodeEntries_eq_foldlM (es : List (String × Value)) (target : Ty) (depth : Depth)
    (out : TypedMap) :
    Value.encodeEntries es target depth out = es.foldlM
      (fun out e => out.store e.1 (e.2.encodeEntry target depth)) out := by
  induction es generalizing out with
  | nil => rfl
  | cons e rest ih =>
    simp only [Value.encodeEntries, List.foldlM_cons]
    cases out.store e.1 (e.2.encodeEntry target depth) with
    | error e => rfl
    | ok out => exact ih out

/-- Rebuilds a map as one of type `target`, keys in order. -/
def TypedMap.rebuild (m : TypedMap) (target : Ty) (depth : Depth) : Except Error TypedMap := do
  let depth ← depth.enter
  Value.encodeEntries m.entries target depth (.empty target)

/-- A map is rebuilt by the loop that also converts to a map. -/
theorem TypedMap.rebuild_eq (m : TypedMap) (target : Ty) (depth : Depth) :
    m.rebuild target depth = depth.enter >>= fun inner =>
      collect (·.encodeEntry target inner) m.entries (.empty target) :=
  bind_congr fun inner => Value.encodeEntries_eq_foldlM m.entries target inner _

/-- Inside a container a JSON object is passed on and any other map is rebuilt. -/
theorem TypedMap.encode_eq (m : TypedMap) (target : Ty) (depth : Depth) :
    m.encode target depth = match m.ty with
      | .json => .ok (.map m)
      | .map _ | .record _ => (m.rebuild target depth).map .map
      | t => .error (.incompatible Ty.json.name t.name) := by
  obtain ⟨ty, entries, frozen⟩ := m
  cases ty with
  -- both are rebuilt, one level further down
  | map | record =>
    rw [encode, rebuild]
    cases depth.enter with
    | error e => rfl
    | ok inner => cases h : Value.encodeEntries entries target inner (.empty target) <;> rfl
  | _ => rfl

/-- Converts a value and puts it into a map under a key. A failure is labelled with the key. -/
def TypedMap.putEncodedInPlace (key : String) (v : Value) (target : Ty) (depth : Depth) :
    Update Error TypedMap Unit :=
  .relabel (.annotate key) do
    let w ← .look fun _ => v.encodeEntry target depth
    (fun _ => ()) <$> putInPlace key w

/-- A refused conversion or put leaves the map as it was. -/
theorem TypedMap.putEncodedInPlace_allOrNothing (key : String) (v : Value) (target : Ty)
    (depth : Depth) : (putEncodedInPlace key v target depth).AllOrNothing :=
  .relabel (.look_bind _ fun w => .map (putInPlace_allOrNothing key w) _) _

/-- The map after a value is converted and put. -/
def TypedMap.putEncoded (object : TypedMap) (key : String) (v : Value) (target : Ty)
    (depth : Depth) : Except Error TypedMap :=
  (putEncodedInPlace key v target depth).after object

/-- One entry is put as a conversion of a whole map puts each of its entries. -/
theorem TypedMap.putEncoded_eq (object : TypedMap) (key : String) (v : Value) (target : Ty)
    (depth : Depth) :
    object.putEncoded key v target depth = object.store key (v.encodeEntry target depth) := by
  rw [putEncoded, Update.after, putEncodedInPlace, Update.outcome_relabel, Update.outcome_look_bind,
    store]
  cases v.encodeEntry target depth with
  -- a failed conversion never gets as far as the map
  | error e => rfl
  | ok w =>
    simp only [Except.map, bind, Except.bind]
    rw [Update.outcome_map, putInPlace_outcome]
    cases object.put key w <;> rfl

/-- Converts the value of a union. Arrays have no conversion here. -/
def Value.encodeMember (v : Value) (target : Ty) (depth : Depth) : Except Error Value :=
  match v with
  | .null => .ok .null
  | .scalar s => s.encode true
  | .array a => .error (.incompatible Ty.json.name (Value.array a).typeName)
  | .map m => m.encode target depth

/-- Converts a JSON object, a map or a record to a JSON object. -/
def Value.encodeRecord (v : Value) (depth : Depth) : Except Error TypedMap :=
  match v with
  | .map m =>
    if m.ty.isMapping then m.rebuild .json depth
    else .error (.incompatible Ty.json.name v.typeName)
  | v => .error (.incompatible Ty.json.name v.typeName)

end TypedJson
