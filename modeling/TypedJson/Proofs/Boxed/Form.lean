import TypedJson.Name
import TypedJson.Proofs.Induction

/-!
# TypedJson — the form without columns

How an array keeps its elements is nothing that a reader can see. To say so, every type and value is
brought into a form without columns, with the elements of each array as they are read; two values
differ in storage alone exactly if they have the same form.

* **`Ty.boxed`**, **`Value.boxed`** — the form, inside defaults and declared types too;
* **`TypedArray.boxed_eq`**, **`TypedMap.boxed_eq`** — the form in terms of what is read;
* **`Ty.boxed_boxed`**, **`Value.boxed_boxed`** — the form is its own form.
-/

namespace TypedJson

/-! ## The form -/

mutual

/-- The type with every array in its defaults kept without a column. -/
def Ty.boxed : Ty → Ty
  | .scalar k => .scalar k
  | .json => .json
  | .any => .any
  | .null => .null
  | .union members nullable => .union (Ty.boxedAll members) nullable
  | .array element => .array element.boxed
  | .map constraint => .map (Ty.boxedOption constraint)
  | .record r => .record r.boxed
termination_by structural t => t

def Ty.boxedAll : List Ty → List Ty
  | [] => []
  | t :: rest => t.boxed :: Ty.boxedAll rest
termination_by structural ts => ts

def Ty.boxedOption : Option Ty → Option Ty
  | none => none
  | some t => some t.boxed
termination_by structural t => t

def RecordTy.boxed : RecordTy → RecordTy
  | ⟨name, fields, rest⟩ => ⟨name, Field.boxedAll fields, Ty.boxedOption rest⟩
termination_by structural r => r

def Field.boxedAll : List (String × Field) → List (String × Field)
  | [] => []
  | (key, field) :: rest => (key, field.boxed) :: Field.boxedAll rest
termination_by structural fields => fields

def Field.boxed : Field → Field
  | ⟨ty, default⟩ => ⟨ty.boxed, default.boxed⟩
termination_by structural field => field

/-- The value with every array kept without a column, at any depth and in the defaults of its
types. -/
def Value.boxed : Value → Value
  | .null => .null
  | .scalar s => .scalar s
  | .array a => .array a.boxed
  | .map m => .map m.boxed
termination_by structural v => v

def TypedArray.boxed : TypedArray → TypedArray
  | ⟨elementType, storage, frozen⟩ => ⟨elementType.boxed, .boxed storage.boxedElements, frozen⟩
termination_by structural a => a

def Storage.boxedElements : Storage → List Value
  | .packed column => column.toScalars.map .scalar
  | .boxed elements => Value.boxedAll elements
termination_by structural s => s

def TypedMap.boxed : TypedMap → TypedMap
  | ⟨ty, entries, frozen⟩ => ⟨ty.boxed, Value.boxedEntries entries, frozen⟩
termination_by structural m => m

def Value.boxedAll : List Value → List Value
  | [] => []
  | v :: rest => v.boxed :: Value.boxedAll rest
termination_by structural vs => vs

def Value.boxedEntries : List (String × Value) → List (String × Value)
  | [] => []
  | (key, v) :: rest => (key, v.boxed) :: Value.boxedEntries rest
termination_by structural es => es

end

/-! ### The form of each part -/

/-- The five loops of the recursion, as maps; below, the form is only seen through these. -/
theorem Ty.boxedAll_eq_map (ts : List Ty) : Ty.boxedAll ts = ts.map Ty.boxed := by
  induction ts with
  | nil => rfl
  | cons t rest ih => simp [Ty.boxedAll, ih]

theorem Ty.boxedOption_eq_map (t : Option Ty) : Ty.boxedOption t = t.map Ty.boxed := by
  cases t <;> rfl

theorem Field.boxedAll_eq_map (fields : List (String × Field)) :
    Field.boxedAll fields = fields.map fun f => (f.1, f.2.boxed) := by
  induction fields with
  | nil => rfl
  | cons f rest ih => simp [Field.boxedAll, ih]

theorem Value.boxedAll_eq_map (vs : List Value) : Value.boxedAll vs = vs.map Value.boxed := by
  induction vs with
  | nil => rfl
  | cons v rest ih => simp [Value.boxedAll, ih]

/-- Keys are kept, and so is their order. -/
theorem Value.boxedEntries_eq_map (es : List (String × Value)) :
    Value.boxedEntries es = es.map fun e => (e.1, e.2.boxed) := by
  induction es with
  | nil => rfl
  | cons e rest ih => simp [Value.boxedEntries, ih]

/-- A union has the forms of its members. -/
@[simp] theorem Ty.boxed_union (members : List Ty) (nullable : Bool) :
    (Ty.union members nullable).boxed = .union (members.map boxed) nullable := by
  rw [boxed, boxedAll_eq_map]

/-- A map type has the form of its constraint, if there is one. -/
@[simp] theorem Ty.boxed_map (constraint : Option Ty) :
    (Ty.map constraint).boxed = .map (constraint.map boxed) := by
  rw [boxed, boxedOption_eq_map]

/-- A record type has the forms of its fields, defaults included, under the same names. -/
theorem RecordTy.boxed_eq (r : RecordTy) :
    r.boxed = ⟨r.name, r.fields.map fun f => (f.1, f.2.boxed), r.rest.map Ty.boxed⟩ := by
  cases r
  rw [boxed, Field.boxedAll_eq_map, Ty.boxedOption_eq_map]

/-- A field is where the form of a type reaches a value. -/
theorem Field.boxed_eq (f : Field) : f.boxed = ⟨f.ty.boxed, f.default.boxed⟩ := by
  cases f
  rfl

/-- The elements of the form are those that are read, each in its own form. -/
theorem TypedArray.boxed_eq (a : TypedArray) :
    a.boxed = ⟨a.elementType.boxed, .boxed (a.toList.map Value.boxed), a.frozen⟩ := by
  obtain ⟨elementType, storage, frozen⟩ := a
  rw [boxed]
  cases storage with
  | packed column =>
    simp [Storage.boxedElements, toList, Storage.toList, Function.comp_def, Value.boxed]
  | boxed elements => rw [Storage.boxedElements, Value.boxedAll_eq_map, toList, Storage.toList]

/-- A map keeps its flag and its keys. There is no storage to forget here but in what it holds. -/
theorem TypedMap.boxed_eq (m : TypedMap) :
    m.boxed = ⟨m.ty.boxed, m.entries.map fun e => (e.1, e.2.boxed), m.frozen⟩ := by
  cases m
  rw [boxed, Value.boxedEntries_eq_map]

namespace TypedArray

variable (a : TypedArray)

/-- What readers see of an array without its column: all but the storage is there in its form. -/
@[simp] theorem elementType_boxed : a.boxed.elementType = a.elementType.boxed := by rw [boxed_eq]

@[simp] theorem frozen_boxed : a.boxed.frozen = a.frozen := by rw [boxed_eq]

/-- The elements are there in order, each in its form. -/
@[simp] theorem toList_boxed : a.boxed.toList = a.toList.map Value.boxed := by
  rw [boxed_eq]
  rfl

@[simp] theorem size_boxed : a.boxed.size = a.size := by simp [size]

end TypedArray

namespace TypedMap

variable (m : TypedMap)

/-- What readers see of a map. -/
@[simp] theorem ty_boxed : m.boxed.ty = m.ty.boxed := by rw [boxed_eq]

@[simp] theorem frozen_boxed : m.boxed.frozen = m.frozen := by rw [boxed_eq]

/-- Entries are there in order, under the same keys. -/
@[simp] theorem entries_boxed : m.boxed.entries = m.entries.map fun e => (e.1, e.2.boxed) := by
  rw [boxed_eq]

end TypedMap

/-! ### Kinds of types -/

namespace Ty

variable (t : Ty)

/-- The form of a type has the same constructor, so that whatever asks for the constructor sees no
difference. -/
@[simp] theorem isNull_boxed : t.boxed.isNull = t.isNull := by cases t <;> rfl

@[simp] theorem isJson_boxed : t.boxed.isJson = t.isJson := by cases t <;> rfl

@[simp] theorem isAny_boxed : t.boxed.isAny = t.isAny := by cases t <;> rfl

@[simp] theorem isUnion_boxed : t.boxed.isUnion = t.isUnion := by cases t <;> rfl

@[simp] theorem isMapping_boxed : t.boxed.isMapping = t.isMapping := by cases t <;> rfl

end Ty

@[simp] theorem Value.isNull_boxed (v : Value) : v.boxed.isNull = v.isNull := by cases v <;> rfl

/-- The type of the form is the form of the type. -/
@[simp] theorem Value.typeOf_boxed (v : Value) : v.boxed.typeOf = v.typeOf.boxed := by
  cases v with
  | array a => exact congrArg Ty.array a.elementType_boxed
  | map m => exact m.ty_boxed
  | _ => rfl

/-! ### Names -/

/-- Defaults are no part of a name. -/
@[simp] theorem Ty.name_boxed (t : Ty) : t.boxed.name = t.name := by
  induction t with
  | union members nullable ih =>
    have hnames : Ty.names (members.map boxed) = Ty.names members := by
      rw [names_eq_map, names_eq_map, List.map_map]
      exact List.map_congr_left ih
    -- the names of the members that are not null, which are all that a nullable union shows
    have hnonNull (names : List String) :
        (((members.map boxed).zip names).filter (!·.1.isNull)).map Prod.snd =
          ((members.zip names).filter (!·.1.isNull)).map Prod.snd := by
      rw [List.zip_map_left, List.filter_map, List.map_map]
      simp [Function.comp_def]
    rw [boxed_union, Ty.name, Ty.name, hnames, hnonNull, List.length_map]
  | array element ih =>
    rw [boxed, Ty.name, Ty.name, ih, isUnion_boxed]
  | mapOf t ih =>
    show "map<" ++ t.boxed.name ++ ">" = "map<" ++ t.name ++ ">"
    rw [ih]
  | record r _ _ =>
    show r.boxed.name = r.name
    rw [RecordTy.boxed_eq]
  | _ => rfl

/-- Names mention neither storage nor defaults, so errors read the same. -/
@[simp] theorem Value.typeName_boxed (v : Value) : v.boxed.typeName = v.typeName := by
  rw [typeName, typeOf_boxed, Ty.name_boxed, typeName]

/-! ### Twice is once -/

/-- What is left to show for each constructor; the step for arrays is the only one where something
is dropped. -/
theorem boxed_boxed_steps : InductionSteps (fun t => t.boxed.boxed = t.boxed)
    (fun v => v.boxed.boxed = v.boxed) where
  scalarTy _ := rfl
  json := rfl
  any := rfl
  nullTy := rfl
  union members nullable ih := by
    rw [Ty.boxed_union, Ty.boxed_union, List.map_map]
    exact congrArg (Ty.union · nullable) (List.map_congr_left ih)
  arrayTy element ih := congrArg Ty.array ih
  openMap := rfl
  mapOf t ih := congrArg Ty.mapOf ih
  record r ihFields ihRest := by
    -- a field is its type and its default, which is why types and values go together
    have hfields : r.boxed.fields.map (fun f => (f.1, f.2.boxed)) = r.boxed.fields := by
      rw [RecordTy.boxed_eq, List.map_map]
      refine List.map_congr_left fun f hf => ?_
      obtain ⟨hty, hdefault⟩ := ihFields f hf
      simp [Field.boxed_eq, hty, hdefault]
    have hrest : r.boxed.rest.map Ty.boxed = r.boxed.rest := by
      rw [RecordTy.boxed_eq]
      cases hr : r.rest with
      | none => rfl
      | some t => exact congrArg some (ihRest t hr)
    show Ty.record r.boxed.boxed = Ty.record r.boxed
    rw [RecordTy.boxed_eq r.boxed, hfields, hrest]
    cases r.boxed
    rfl
  null := rfl
  scalar _ := rfl
  array a ihTy ihItems := by
    have hitems : (a.toList.map Value.boxed).map Value.boxed = a.toList.map Value.boxed := by
      rw [List.map_map]
      exact List.map_congr_left ihItems
    show Value.array a.boxed.boxed = Value.array a.boxed
    rw [TypedArray.boxed_eq a.boxed, TypedArray.elementType_boxed, TypedArray.toList_boxed, ihTy,
      hitems, TypedArray.boxed_eq a]
  map m ihTy ihEntries := by
    have hentries : (m.entries.map fun e => (e.1, e.2.boxed)).map (fun e => (e.1, e.2.boxed)) =
        m.entries.map fun e => (e.1, e.2.boxed) := by
      rw [List.map_map]
      exact List.map_congr_left fun e he => congrArg (Prod.mk e.1) (ihEntries e he)
    show Value.map m.boxed.boxed = Value.map m.boxed
    rw [TypedMap.boxed_eq m.boxed, TypedMap.ty_boxed, TypedMap.entries_boxed, ihTy, hentries,
      TypedMap.boxed_eq m]

/-- The form is its own form. -/
@[simp] theorem Ty.boxed_boxed (t : Ty) : t.boxed.boxed = t.boxed := boxed_boxed_steps.ofTy t

/-- A form has no columns left to drop. -/
@[simp] theorem Value.boxed_boxed (v : Value) : v.boxed.boxed = v.boxed :=
  boxed_boxed_steps.ofValue v

end TypedJson
