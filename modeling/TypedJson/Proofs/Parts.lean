import TypedJson.Proofs.Induction

/-!
# TypedJson — what lies inside a type or a value

Most properties here are of the form "so it is everywhere inside". There are three ways to go
inside:

* **`Value.Inside`** — through elements and entries, the contents of a value;
* **`Ty.Inside`** — through members, elements, constraints, fields and rests, the parts of a type;
* **`Part.Inside`** — through all of these and also into the declared type of a container and into
  the defaults of a record type, everything that the datum is made of.

Each comes with `Everywhere`, which asks a predicate of the outermost part and of all inside it, and
with one equivalence for each shape, by which a proof goes down one step.
-/

namespace TypedJson

/-! ## Contents of a value -/

namespace Value

/-- `v.Inside w`: the value `v` is `w` or one of its contents, at any depth. -/
inductive Inside : Value → Value → Prop
  | self (v : Value) : Inside v v
  | element {v x : Value} {a : TypedArray} (hx : x ∈ a.toList) (h : Inside v x) :
    Inside v (.array a)
  | entry {v : Value} {e : String × Value} {m : TypedMap} (he : e ∈ m.entries)
    (h : Inside v e.2) : Inside v (.map m)

/-- The predicate holds of the value and of all its contents. -/
def Everywhere (P : Value → Prop) (v : Value) : Prop := ∀ w, Inside w v → P w

variable {P : Value → Prop}

/-- What holds everywhere in a value holds of the value: it lies inside itself. -/
theorem Everywhere.self {v : Value} (h : v.Everywhere P) : P v := h v (.self v)

/-- A value without contents has only itself to be asked of. -/
@[simp] theorem everywhere_null : Value.null.Everywhere P ↔ P .null := by
  constructor
  · exact Everywhere.self
  · intro hP w hw
    cases hw
    exact hP

@[simp] theorem everywhere_scalar {s : Scalar} : (Value.scalar s).Everywhere P ↔ P (.scalar s) := by
  constructor
  · exact Everywhere.self
  · intro hP w hw
    cases hw
    exact hP

/-- One step down into an array: its elements are what is inside, apart from the array. -/
@[simp] theorem everywhere_array {a : TypedArray} :
    (Value.array a).Everywhere P ↔ P (.array a) ∧ ∀ v ∈ a.toList, v.Everywhere P := by
  constructor
  · intro h
    exact ⟨h.self, fun v hv w hw => h w (.element hv hw)⟩
  · -- each way to be inside is one constructor, and beneath the outermost step the part lies inside
    -- an element
    rintro ⟨hP, hitems⟩ w hw
    cases hw with
    | self => exact hP
    | element hx hw => exact hitems _ hx w hw

/-- One step down into a map. Keys play no part, only the values under them do. -/
@[simp] theorem everywhere_map {m : TypedMap} :
    (Value.map m).Everywhere P ↔ P (.map m) ∧ ∀ e ∈ m.entries, e.2.Everywhere P := by
  constructor
  · intro h
    exact ⟨h.self, fun e he w hw => h w (.entry he hw)⟩
  · rintro ⟨hP, hentries⟩ w hw
    cases hw with
    | self => exact hP
    | entry he hw => exact hentries _ he w hw

/-- A weaker predicate holds wherever the stronger one does. -/
theorem Everywhere.mono {Q : Value → Prop} (himp : ∀ v, P v → Q v) {v : Value}
    (h : v.Everywhere P) : v.Everywhere Q :=
  fun w hw => himp w (h w hw)

end Value

/-! ## Parts of a type -/

namespace Ty

/-- `s.Inside t`: the type `s` is `t` or one of its parts, at any depth. -/
inductive Inside : Ty → Ty → Prop
  | self (t : Ty) : Inside t t
  | member {s t : Ty} {members : List Ty} {nullable : Bool} (ht : t ∈ members)
    (h : Inside s t) : Inside s (.union members nullable)
  | element {s t : Ty} (h : Inside s t) : Inside s (.array t)
  | constraint {s t : Ty} (h : Inside s t) : Inside s (.mapOf t)
  | field {s : Ty} {f : String × Field} {r : RecordTy} (hf : f ∈ r.fields)
    (h : Inside s f.2.ty) : Inside s (.record r)
  | rest {s t : Ty} {r : RecordTy} (hr : r.rest = some t) (h : Inside s t) :
    Inside s (.record r)

/-- The predicate holds of the type and of all its parts. -/
def Everywhere (P : Ty → Prop) (t : Ty) : Prop := ∀ s, Inside s t → P s

variable {P : Ty → Prop}

/-- What holds everywhere in a type holds of the type. -/
theorem Everywhere.self {t : Ty} (h : t.Everywhere P) : P t := h t (.self t)

/-- From a union to one of its members. With the four lemmas that follow, this is the way down that
needs no induction: what lies inside a part lies inside the whole. -/
theorem Everywhere.member {members : List Ty} {nullable : Bool}
    (h : (Ty.union members nullable).Everywhere P) {t : Ty} (ht : t ∈ members) : t.Everywhere P :=
  fun s hs => h s (.member ht hs)

theorem Everywhere.element {t : Ty} (h : (Ty.array t).Everywhere P) : t.Everywhere P :=
  fun s hs => h s (.element hs)

theorem Everywhere.constraint {t : Ty} (h : (Ty.mapOf t).Everywhere P) : t.Everywhere P :=
  fun s hs => h s (.constraint hs)

/-- From a record type to the type of one of its fields. The default of the field is no part
here. -/
theorem Everywhere.field {r : RecordTy} (h : (Ty.record r).Everywhere P) {f : String × Field}
    (hf : f ∈ r.fields) : f.2.ty.Everywhere P :=
  fun s hs => h s (.field hf hs)

/-! A type without parts leaves nothing to go into. -/

/-- A scalar type has no parts, so that its only inhabitant of `Inside` is `self`; the four types
after it are of the same kind. -/
@[simp] theorem everywhere_scalar {k : ScalarKind} :
    (Ty.scalar k).Everywhere P ↔ P (.scalar k) :=
  ⟨Everywhere.self, fun hP s hs => by cases hs; exact hP⟩

@[simp] theorem everywhere_json : Ty.json.Everywhere P ↔ P .json :=
  ⟨Everywhere.self, fun hP s hs => by cases hs; exact hP⟩

@[simp] theorem everywhere_any : Ty.any.Everywhere P ↔ P .any :=
  ⟨Everywhere.self, fun hP s hs => by cases hs; exact hP⟩

@[simp] theorem everywhere_null : Ty.null.Everywhere P ↔ P .null :=
  ⟨Everywhere.self, fun hP s hs => by cases hs; exact hP⟩

@[simp] theorem everywhere_openMap : Ty.openMap.Everywhere P ↔ P .openMap :=
  ⟨Everywhere.self, fun hP s hs => by cases hs; exact hP⟩

/-- One step down into a union. The flag for null is not a part. -/
@[simp] theorem everywhere_union {members : List Ty} {nullable : Bool} :
    (Ty.union members nullable).Everywhere P ↔
      P (.union members nullable) ∧ ∀ t ∈ members, t.Everywhere P := by
  constructor
  · intro h
    exact ⟨h.self, fun t ht => h.member ht⟩
  · rintro ⟨hP, hmembers⟩ s hs
    cases hs with
    | self => exact hP
    | member ht hs => exact hmembers _ ht s hs

/-- One step down into an array type. -/
@[simp] theorem everywhere_array {t : Ty} :
    (Ty.array t).Everywhere P ↔ P (.array t) ∧ t.Everywhere P := by
  constructor
  · intro h
    exact ⟨h.self, h.element⟩
  · rintro ⟨hP, helement⟩ s hs
    cases hs with
    | self => exact hP
    | element hs => exact helement s hs

/-- One step down into a map type with a constraint; without one there is nothing inside. -/
@[simp] theorem everywhere_mapOf {t : Ty} :
    (Ty.mapOf t).Everywhere P ↔ P (.mapOf t) ∧ t.Everywhere P := by
  constructor
  · intro h
    exact ⟨h.self, h.constraint⟩
  · rintro ⟨hP, hconstraint⟩ s hs
    cases hs with
    | self => exact hP
    | constraint hs => exact hconstraint s hs

/-- One step down into a record type: the types of its fields, and the type for all other keys if it
has one. -/
@[simp] theorem everywhere_record {r : RecordTy} :
    (Ty.record r).Everywhere P ↔
      P (.record r) ∧ (∀ f ∈ r.fields, f.2.ty.Everywhere P) ∧
        ∀ t, r.rest = some t → t.Everywhere P := by
  constructor
  · intro h
    -- the rest is no lemma of its own: its type is given by an equation, not by membership
    exact ⟨h.self, fun f hf => h.field hf, fun t hr s hs => h s (.rest hr hs)⟩
  · rintro ⟨hP, hfields, hrest⟩ s hs
    cases hs with
    | self => exact hP
    | field hf hs => exact hfields _ hf s hs
    | rest hr hs => exact hrest _ hr s hs

end Ty

/-! ## Everything a datum is made of -/

/-- A type or a value. -/
inductive Part where
  | ty (t : Ty)
  | value (v : Value)

namespace Part

/-- `p.Inside q`: the type or value `p` occurs somewhere in `q`, be it in the declared type of a
container or in the default of a field. -/
inductive Inside : Part → Part → Prop
  | self (p : Part) : Inside p p
  | member {p : Part} {t : Ty} {members : List Ty} {nullable : Bool} (ht : t ∈ members)
    (h : Inside p (.ty t)) : Inside p (.ty (.union members nullable))
  | element {p : Part} {t : Ty} (h : Inside p (.ty t)) : Inside p (.ty (.array t))
  | constraint {p : Part} {t : Ty} (h : Inside p (.ty t)) : Inside p (.ty (.mapOf t))
  | field {p : Part} {f : String × Field} {r : RecordTy} (hf : f ∈ r.fields)
    (h : Inside p (.ty f.2.ty)) : Inside p (.ty (.record r))
  | default {p : Part} {f : String × Field} {r : RecordTy} (hf : f ∈ r.fields)
    (h : Inside p (.value f.2.default)) : Inside p (.ty (.record r))
  | rest {p : Part} {t : Ty} {r : RecordTy} (hr : r.rest = some t) (h : Inside p (.ty t)) :
    Inside p (.ty (.record r))
  | elementType {p : Part} {a : TypedArray} (h : Inside p (.ty a.elementType)) :
    Inside p (.value (.array a))
  | item {p : Part} {v : Value} {a : TypedArray} (hv : v ∈ a.toList)
    (h : Inside p (.value v)) : Inside p (.value (.array a))
  | mapTy {p : Part} {m : TypedMap} (h : Inside p (.ty m.ty)) : Inside p (.value (.map m))
  | entry {p : Part} {e : String × Value} {m : TypedMap} (he : e ∈ m.entries)
    (h : Inside p (.value e.2)) : Inside p (.value (.map m))

/-- The predicate holds of the type or value and of all that it is made of. -/
def Everywhere (P : Part → Prop) (q : Part) : Prop := ∀ p, Inside p q → P p

variable {P : Part → Prop}

/-- What holds everywhere in a datum holds of the datum. -/
theorem Everywhere.self {q : Part} (h : q.Everywhere P) : P q := h q (.self q)

/-- From a union to one of its members. -/
theorem Everywhere.member {members : List Ty} {nullable : Bool}
    (h : (Part.ty (.union members nullable)).Everywhere P) {t : Ty} (ht : t ∈ members) :
    (Part.ty t).Everywhere P :=
  fun p hp => h p (.member ht hp)

theorem Everywhere.element {t : Ty} (h : (Part.ty (.array t)).Everywhere P) :
    (Part.ty t).Everywhere P :=
  fun p hp => h p (.element hp)

theorem Everywhere.constraint {t : Ty} (h : (Part.ty (.mapOf t)).Everywhere P) :
    (Part.ty t).Everywhere P :=
  fun p hp => h p (.constraint hp)

theorem Everywhere.field {r : RecordTy} (h : (Part.ty (.record r)).Everywhere P)
    {f : String × Field} (hf : f ∈ r.fields) : (Part.ty f.2.ty).Everywhere P :=
  fun p hp => h p (.field hf hp)

/-- From a record type to the default of a field. This is where a type leads to a value, which the
parts of a type alone do not. -/
theorem Everywhere.default {r : RecordTy} (h : (Part.ty (.record r)).Everywhere P)
    {f : String × Field} (hf : f ∈ r.fields) : (Part.value f.2.default).Everywhere P :=
  fun p hp => h p (.default hf hp)

/-- From a record type to the type for all keys that it does not declare. -/
theorem Everywhere.rest {r : RecordTy} (h : (Part.ty (.record r)).Everywhere P) {t : Ty}
    (hr : r.rest = some t) : (Part.ty t).Everywhere P :=
  fun p hp => h p (.rest hr hp)

/-- From an array to its declared element type, the step from a value to a type. -/
theorem Everywhere.elementType {a : TypedArray} (h : (Part.value (.array a)).Everywhere P) :
    (Part.ty a.elementType).Everywhere P :=
  fun p hp => h p (.elementType hp)

/-- From an array to one of its elements. -/
theorem Everywhere.item {a : TypedArray} (h : (Part.value (.array a)).Everywhere P) {v : Value}
    (hv : v ∈ a.toList) : (Part.value v).Everywhere P :=
  fun p hp => h p (.item hv hp)

/-- From a map to its declared type, be it a map type or a record type with defaults of its own. -/
theorem Everywhere.mapTy {m : TypedMap} (h : (Part.value (.map m)).Everywhere P) :
    (Part.ty m.ty).Everywhere P :=
  fun p hp => h p (.mapTy hp)

/-- From a map to a value under one of its keys. -/
theorem Everywhere.entry {m : TypedMap} (h : (Part.value (.map m)).Everywhere P)
    {e : String × Value} (he : e ∈ m.entries) : (Part.value e.2).Everywhere P :=
  fun p hp => h p (.entry he hp)

/-! ### One step down -/

/-- Scalar types have nothing inside, and neither have the four types that follow. -/
@[simp] theorem everywhere_scalarTy {k : ScalarKind} :
    (Part.ty (.scalar k)).Everywhere P ↔ P (.ty (.scalar k)) :=
  ⟨Everywhere.self, fun hP p hp => by cases hp; exact hP⟩

@[simp] theorem everywhere_json : (Part.ty .json).Everywhere P ↔ P (.ty .json) :=
  ⟨Everywhere.self, fun hP p hp => by cases hp; exact hP⟩

@[simp] theorem everywhere_any : (Part.ty .any).Everywhere P ↔ P (.ty .any) :=
  ⟨Everywhere.self, fun hP p hp => by cases hp; exact hP⟩

@[simp] theorem everywhere_nullTy : (Part.ty .null).Everywhere P ↔ P (.ty .null) :=
  ⟨Everywhere.self, fun hP p hp => by cases hp; exact hP⟩

@[simp] theorem everywhere_openMap : (Part.ty .openMap).Everywhere P ↔ P (.ty .openMap) :=
  ⟨Everywhere.self, fun hP p hp => by cases hp; exact hP⟩

/-- One step down into a union. -/
@[simp] theorem everywhere_union {members : List Ty} {nullable : Bool} :
    (Part.ty (.union members nullable)).Everywhere P ↔
      P (.ty (.union members nullable)) ∧ ∀ t ∈ members, (Part.ty t).Everywhere P := by
  constructor
  · intro h
    exact ⟨h.self, fun t ht => h.member ht⟩
  · rintro ⟨hP, hmembers⟩ p hp
    cases hp with
    | self => exact hP
    | member ht hp => exact hmembers _ ht p hp

/-- One step down into an array type. -/
@[simp] theorem everywhere_arrayTy {t : Ty} :
    (Part.ty (.array t)).Everywhere P ↔ P (.ty (.array t)) ∧ (Part.ty t).Everywhere P := by
  constructor
  · intro h
    exact ⟨h.self, h.element⟩
  · rintro ⟨hP, helement⟩ p hp
    cases hp with
    | self => exact hP
    | element hp => exact helement p hp

/-- One step down into a map type with a constraint. -/
@[simp] theorem everywhere_mapOf {t : Ty} :
    (Part.ty (.mapOf t)).Everywhere P ↔ P (.ty (.mapOf t)) ∧ (Part.ty t).Everywhere P := by
  constructor
  · intro h
    exact ⟨h.self, h.constraint⟩
  · rintro ⟨hP, hconstraint⟩ p hp
    cases hp with
    | self => exact hP
    | constraint hp => exact hconstraint p hp

/-- One step down into a record type. A field leads to its type and to its default, both of which
are looked at. -/
@[simp] theorem everywhere_record {r : RecordTy} :
    (Part.ty (.record r)).Everywhere P ↔
      P (.ty (.record r)) ∧
        (∀ f ∈ r.fields, (Part.ty f.2.ty).Everywhere P ∧ (Part.value f.2.default).Everywhere P) ∧
        ∀ t, r.rest = some t → (Part.ty t).Everywhere P := by
  constructor
  · intro h
    exact ⟨h.self, fun f hf => ⟨h.field hf, h.default hf⟩, fun t hr => h.rest hr⟩
  · -- a field gives two ways down, so its hypothesis is a pair
    rintro ⟨hP, hfields, hrest⟩ p hp
    cases hp with
    | self => exact hP
    | field hf hp => exact (hfields _ hf).1 p hp
    | default hf hp => exact (hfields _ hf).2 p hp
    | rest hr hp => exact hrest _ hr p hp

/-- Null has nothing inside, not even a declared type. -/
@[simp] theorem everywhere_null : (Part.value .null).Everywhere P ↔ P (.value .null) :=
  ⟨Everywhere.self, fun hP p hp => by cases hp; exact hP⟩

@[simp] theorem everywhere_scalar {s : Scalar} :
    (Part.value (.scalar s)).Everywhere P ↔ P (.value (.scalar s)) :=
  ⟨Everywhere.self, fun hP p hp => by cases hp; exact hP⟩

/-- One step down into an array: its element type first, then its elements. -/
@[simp] theorem everywhere_array {a : TypedArray} :
    (Part.value (.array a)).Everywhere P ↔
      P (.value (.array a)) ∧ (Part.ty a.elementType).Everywhere P ∧
        ∀ v ∈ a.toList, (Part.value v).Everywhere P := by
  constructor
  · intro h
    exact ⟨h.self, h.elementType, fun v hv => h.item hv⟩
  · rintro ⟨hP, hty, hitems⟩ p hp
    cases hp with
    | self => exact hP
    | elementType hp => exact hty p hp
    | item hv hp => exact hitems _ hv p hp

/-- One step down into a map: its type first, then the values under its keys. -/
@[simp] theorem everywhere_map {m : TypedMap} :
    (Part.value (.map m)).Everywhere P ↔
      P (.value (.map m)) ∧ (Part.ty m.ty).Everywhere P ∧
        ∀ e ∈ m.entries, (Part.value e.2).Everywhere P := by
  constructor
  · intro h
    exact ⟨h.self, h.mapTy, fun e he => h.entry he⟩
  · rintro ⟨hP, hty, hentries⟩ p hp
    cases hp with
    | self => exact hP
    | mapTy hp => exact hty p hp
    | entry he hp => exact hentries _ he p hp

end Part

end TypedJson
