import TypedJson.Json

/-!
# TypedJson — induction over types and values

A record type holds values, a container holds its type, and both sit in lists, so the induction that
the declaration gives has one motive for each auxiliary type. The principles here have the cases
that a proof thinks in instead:

* **`InductionSteps.all`** — types and values at once, for what goes through the defaults of record
  types and the declared types of containers;
* **`Ty.induction`** — types alone;
* **`Value.induction`** — values alone, through elements and entries;
* **`Json.induction`** — documents.

An array has one case, whatever its storage is: the steps speak of its element list.
-/

namespace TypedJson

/-- The cases of a proof by induction over types and values: `P` is shown of types, `Q` of
values. -/
structure InductionSteps (P : Ty → Prop) (Q : Value → Prop) : Prop where
  scalarTy : ∀ k, P (.scalar k)
  json : P .json
  any : P .any
  nullTy : P .null
  union : ∀ members nullable, (∀ t ∈ members, P t) → P (.union members nullable)
  arrayTy : ∀ element, P element → P (.array element)
  openMap : P .openMap
  mapOf : ∀ t, P t → P (.mapOf t)
  record : ∀ r, (∀ f ∈ r.fields, P f.2.ty ∧ Q f.2.default) → (∀ t, r.rest = some t → P t) →
    P (.record r)
  null : Q .null
  scalar : ∀ s, Q (.scalar s)
  array : ∀ a, P a.elementType → (∀ v ∈ a.toList, Q v) → Q (.array a)
  map : ∀ m, P m.ty → (∀ e ∈ m.entries, Q e.2) → Q (.map m)

namespace InductionSteps

variable {P : Ty → Prop} {Q : Value → Prop}

mutual

/-- A type, from the types and the values inside it. The eight statements recurse into each other as
the data does, so each one is structural. -/
theorem ofTy (h : InductionSteps P Q) : ∀ t, P t
  | .scalar k => h.scalarTy k
  | .json => h.json
  | .any => h.any
  | .null => h.nullTy
  | .union members nullable => h.union members nullable (h.ofTys members)
  | .array element => h.arrayTy element (h.ofTy element)
  | .map none => h.openMap
  | .map (some t) => h.mapOf t (h.ofTy t)
  | .record ⟨name, fields, rest⟩ =>
    h.record ⟨name, fields, rest⟩ (h.ofFields fields) (h.ofRest rest)
termination_by structural t => t

theorem ofTys (h : InductionSteps P Q) : ∀ ts : List Ty, ∀ t ∈ ts, P t
  | [], _, hmem => nomatch hmem
  | t :: rest, _, hmem => match List.mem_cons.mp hmem with
    | .inl heq => heq ▸ h.ofTy t
    | .inr hrest => h.ofTys rest _ hrest
termination_by structural ts => ts

theorem ofRest (h : InductionSteps P Q) : ∀ rest : Option Ty, ∀ t, rest = some t → P t
  | none, _, heq => nomatch heq
  | some t, _, heq => Option.some.inj heq ▸ h.ofTy t
termination_by structural rest => rest

theorem ofFields (h : InductionSteps P Q) :
    ∀ fields : List (String × Field), ∀ f ∈ fields, P f.2.ty ∧ Q f.2.default
  | [], _, hmem => nomatch hmem
  | (_, ⟨ty, default⟩) :: rest, _, hmem => match List.mem_cons.mp hmem with
    | .inl heq => heq ▸ ⟨h.ofTy ty, h.ofValue default⟩
    | .inr hrest => h.ofFields rest _ hrest
termination_by structural fields => fields

/-- A value, from its type and what it holds. -/
theorem ofValue (h : InductionSteps P Q) : ∀ v, Q v
  | .null => h.null
  | .scalar s => h.scalar s
  | .array ⟨elementType, storage, frozen⟩ =>
    h.array ⟨elementType, storage, frozen⟩ (h.ofTy elementType) (h.ofStorage storage)
  | .map ⟨ty, entries, frozen⟩ => h.map ⟨ty, entries, frozen⟩ (h.ofTy ty) (h.ofEntries entries)
termination_by structural v => v

/-- The elements of an array: packed ones are scalars, boxed ones any values. -/
theorem ofStorage (h : InductionSteps P Q) : ∀ s : Storage, ∀ v ∈ s.toList, Q v
  | .packed _, _, hmem => match List.mem_map.mp hmem with
    | ⟨s, _, heq⟩ => heq ▸ h.scalar s
  | .boxed elements, v, hmem => h.ofValues elements v hmem
termination_by structural s => s

theorem ofValues (h : InductionSteps P Q) : ∀ vs : List Value, ∀ v ∈ vs, Q v
  | [], _, hmem => nomatch hmem
  | v :: rest, _, hmem => match List.mem_cons.mp hmem with
    | .inl heq => heq ▸ h.ofValue v
    | .inr hrest => h.ofValues rest _ hrest
termination_by structural vs => vs

theorem ofEntries (h : InductionSteps P Q) :
    ∀ entries : List (String × Value), ∀ e ∈ entries, Q e.2
  | [], _, hmem => nomatch hmem
  | (_, v) :: rest, _, hmem => match List.mem_cons.mp hmem with
    | .inl heq => heq ▸ h.ofValue v
    | .inr hrest => h.ofEntries rest _ hrest
termination_by structural entries => entries

end

/-- **Induction over types and values at once.** -/
theorem all (h : InductionSteps P Q) : (∀ t, P t) ∧ ∀ v, Q v := ⟨h.ofTy, h.ofValue⟩

end InductionSteps

/-- Induction over types. The defaults of a record type are values and take no part. -/
@[induction_eliminator]
theorem Ty.induction {motive : Ty → Prop} (scalar : ∀ k, motive (.scalar k)) (json : motive .json)
    (any : motive .any) (null : motive .null)
    (union : ∀ members nullable, (∀ t ∈ members, motive t) → motive (.union members nullable))
    (array : ∀ element, motive element → motive (.array element))
    (openMap : motive .openMap) (mapOf : ∀ t, motive t → motive (.mapOf t))
    (record : ∀ r, (∀ f ∈ r.fields, motive f.2.ty) → (∀ t, r.rest = some t → motive t) →
      motive (.record r)) (t : Ty) : motive t :=
  InductionSteps.ofTy (Q := fun _ => True)
    { scalarTy := scalar, json, any, nullTy := null, union, arrayTy := array, openMap, mapOf
      record := fun r hfields hrest => record r (fun f hf => (hfields f hf).1) hrest
      null := trivial, scalar := fun _ => trivial, array := fun _ _ _ => trivial
      map := fun _ _ _ => trivial } t

/-- Induction over values, through elements and entries. The declared types take no part. -/
@[induction_eliminator]
theorem Value.induction {motive : Value → Prop} (null : motive .null)
    (scalar : ∀ s, motive (.scalar s))
    (array : ∀ a, (∀ v ∈ a.toList, motive v) → motive (.array a))
    (map : ∀ m, (∀ e ∈ m.entries, motive e.2) → motive (.map m)) (v : Value) : motive v :=
  InductionSteps.ofValue (P := fun _ => True)
    { scalarTy := fun _ => trivial, json := trivial, any := trivial, nullTy := trivial
      union := fun _ _ _ => trivial, arrayTy := fun _ _ => trivial, openMap := trivial
      mapOf := fun _ _ => trivial, record := fun _ _ _ => trivial
      null, scalar
      array := fun a _ hitems => array a hitems
      map := fun m _ hentries => map m hentries } v

/-- The cases of a proof by induction over documents. -/
structure Json.InductionSteps (P : Json → Prop) : Prop where
  null : P .null
  bool : ∀ b, P (.bool b)
  number : ∀ n, P (.number n)
  string : ∀ s, P (.string s)
  array : ∀ items, (∀ item ∈ items, P item) → P (.array items)
  object : ∀ entries, (∀ e ∈ entries, P e.2) → P (.object entries)

namespace Json.InductionSteps

variable {P : Json → Prop}

mutual

theorem all (h : InductionSteps P) : ∀ j, P j
  | .null => h.null
  | .bool b => h.bool b
  | .number n => h.number n
  | .string s => h.string s
  | .array items => h.array items (h.ofItems items)
  | .object entries => h.object entries (h.ofEntries entries)
termination_by structural j => j

theorem ofItems (h : InductionSteps P) : ∀ items : List Json, ∀ item ∈ items, P item
  | [], _, hmem => nomatch hmem
  | item :: rest, _, hmem => match List.mem_cons.mp hmem with
    | .inl heq => heq ▸ h.all item
    | .inr hrest => h.ofItems rest _ hrest
termination_by structural items => items

theorem ofEntries (h : InductionSteps P) :
    ∀ entries : List (String × Json), ∀ e ∈ entries, P e.2
  | [], _, hmem => nomatch hmem
  | (_, item) :: rest, _, hmem => match List.mem_cons.mp hmem with
    | .inl heq => heq ▸ h.all item
    | .inr hrest => h.ofEntries rest _ hrest
termination_by structural entries => entries

end

end Json.InductionSteps

/-- Induction over documents. -/
@[induction_eliminator]
theorem Json.induction {motive : Json → Prop} (null : motive .null)
    (bool : ∀ b, motive (.bool b)) (number : ∀ n, motive (.number n))
    (string : ∀ s, motive (.string s))
    (array : ∀ items, (∀ item ∈ items, motive item) → motive (.array items))
    (object : ∀ entries, (∀ e ∈ entries, motive e.2) → motive (.object entries)) (j : Json) :
    motive j :=
  InductionSteps.all { null, bool, number, string, array, object } j

end TypedJson
