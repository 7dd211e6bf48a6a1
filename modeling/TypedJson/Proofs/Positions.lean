import TypedJson.Proofs.Agreement

/-!
# TypedJson — where a conversion can fail

A conversion goes through a value as its type says. This module says where it can fail, in terms of
the type and the value alone, without the order in which a conversion works and without its depth:

* **`Ty.mismatch?`** — what is checked of a value before anything in it is looked at;
* **`Ty.places`** — what goes into the container that is built: a part of the value or a default,
  and what the container says to it;
* **`Fails`** — a position that fails, with its own failure;
* **`Before`** — the order of positions: fields by declaration, entries and elements as they stand;
* **`FirstFailure`** — the first of all positions that fail;
* **`Error.under`**, **`Fails.isPlain`** — what is made of its failure on the way out.
-/

namespace TypedJson

/-! ## Checks of a value as a whole -/

/-- Whether a scalar type has a conversion for the value. There is none to bytes. -/
def ScalarKind.converts : ScalarKind → Value → Bool
  | .int, .int _ => true
  | .float, .int _ | .float, .float _ => true
  | .decimal, .int _ | .decimal, .decimal _ => true
  | .decimal, .float x => (Decimal.ofBinary64? x).isSome
  | .string, v => !v.isNull
  | .boolean, .boolean _ => true
  | _, _ => false

def ScalarKind.mismatch? (k : ScalarKind) (v : Value) : Option Error :=
  if k.converts v then none
  else if k = .byte then some (.incompatible k.name v.typeName)
  else some (.notCastable k.name v.typeName)

/-- Why a conversion does not begin, if it does not: the value is no scalar of that kind, not of
that shape, not JSON, or the union leaves open which member is meant. -/
def Ty.mismatch? : Ty → Value → Option Error
  | .scalar k, v => k.mismatch? v
  | .json, v => if Ty.json.admits v then none else some (.incompatible Ty.json.name v.typeName)
  | .any, _ => none
  | .null, v => if v.isNull then none else some (.incompatible Ty.null.name v.typeName)
  | .union members nullable, v =>
    if (v.isNull && nullable) || (nonNull members).length == 1 then none
    else some (.incompatible (Ty.union members nullable).name v.typeName)
  | .array _, v => if v.isArray then none else some (.incompatible "json-array" v.typeName)
  | .map _, v => if v.isObject then none else some (.incompatible "json-object" v.typeName)
  | .record _, v => if v.isObject then none else some (.incompatible "json-object" v.typeName)

/-! ## Places -/

/-- Where a value comes from that goes into a container. -/
inductive Origin where
  /-- A part of the source is converted to a type. -/
  | converted (t : Ty) (v : Value)
  /-- A part of the source or a default is taken as it is. -/
  | taken (v : Value)

/-- The value is what comes from there. -/
def Origin.Gives : Origin → Value → Prop
  | converted t v, w => ∃ depth, t.decode depth v = .ok w
  | taken v, w => w = v

/-- A place in a container that is built. -/
structure Place where
  /-- What a failure is labelled with. -/
  label? : Option String
  origin : Origin
  /-- Why the container may not hold a value in this place, if it may not. -/
  rejection? : Value → Option Error

/-- Elements of arrays of scalars go without a label; `byte` is none of their types. -/
def Ty.elementLabel? (element : Ty) (index : Nat) : Option String :=
  match element with
  | .int | .float | .decimal | .string | .boolean => none
  | _ => some ("[" ++ toString index ++ "]")

/-- The values of a map are converted to its constraint. Where there is none, and where it is `any`
or `json`, they are taken. -/
def Ty.entryOrigin (constraint : Option Ty) (v : Value) : Origin :=
  match constraint with
  | none | some .any | some .json => .taken v
  | some t => .converted t v

/-- A field is converted to its type, and its default is taken where there is none. -/
def Field.origin (field : Field) : Option Value → Origin
  | some v => .converted field.ty v
  | none => .taken field.default

/-- The place of an element, with its index. -/
def Ty.elementPlace (element : Ty) (p : Value × Nat) : Place where
  label? := element.elementLabel? p.2
  origin := .converted element p.1
  rejection? w := if element.admits w then none else some (.inherentType element.name w.typeName)

/-- The place of an entry of a map. -/
def Ty.entryPlace (constraint : Option Ty) (e : String × Value) : Place where
  label? := some e.1
  origin := Ty.entryOrigin constraint e.2
  rejection? := (TypedMap.empty (.map constraint)).rejection? e.1

/-- The place of a declared field, which the source need not have. -/
def RecordTy.fieldPlace (r : RecordTy) (source : TypedMap) (f : String × Field) : Place where
  label? := some f.1
  origin := f.2.origin (source.get? f.1)
  rejection? := (TypedMap.empty (.record r)).rejection? f.1

/-- The places of the container that a value is converted to, in order. -/
def Ty.places : Ty → Value → List Place
  | .array element, .array source => source.toList.zipIdx.map element.elementPlace
  | .map constraint, v => match v.asObject? with
    | some source => source.entries.map (Ty.entryPlace constraint)
    | none => []
  | .record r, v => match v.asObject? with
    | some source => r.fields.map (r.fieldPlace source)
    | none => []
  | _, _ => []

/-- Whether there are places in the container that a value is converted to. -/
def Ty.opens : Ty → Value → Bool
  | .array _, v => v.isArray
  | .map _, v => v.isObject
  | .record _, v => v.isObject
  | _, _ => false

/-- Only a value that opens up for the type has places. -/
theorem Ty.opens_of_place {t : Ty} {v : Value} {i : Nat} {place : Place}
    (h : (t.places v)[i]? = some place) : t.opens v = true := by
  cases t with
  | array element =>
    cases v with
    | array source => rfl
    | _ => cases h
  | map constraint =>
    simp only [opens, Value.isObject]
    cases hsource : v.asObject? with
    | none => simp [places, hsource] at h
    | some source => rfl
  | record r =>
    simp only [opens, Value.isObject]
    cases hsource : v.asObject? with
    | none => simp [places, hsource] at h
    | some source => rfl
  | _ => cases h

theorem Ty.exists_of_mem_places_array {element : Ty} {v : Value} {place : Place}
    (h : place ∈ (Ty.array element).places v) : ∃ p, place = element.elementPlace p := by
  cases v with
  | array source =>
    obtain ⟨p, -, rfl⟩ := List.mem_map.mp h
    exact ⟨p, rfl⟩
  | _ => cases h

theorem Ty.exists_of_mem_places_map {constraint : Option Ty} {v : Value} {place : Place}
    (h : place ∈ (Ty.map constraint).places v) : ∃ e, place = Ty.entryPlace constraint e := by
  rw [places] at h
  split at h
  · obtain ⟨e, -, rfl⟩ := List.mem_map.mp h
    exact ⟨e, rfl⟩
  · cases h

/-- The places of a record are those of its declared fields, present in the source or not. -/
theorem Ty.exists_of_mem_places_record {r : RecordTy} {v : Value} {place : Place}
    (h : place ∈ (Ty.record r).places v) :
    ∃ source, ∃ f ∈ r.fields, place = r.fieldPlace source f := by
  rw [places] at h
  split at h
  · rename_i source _
    obtain ⟨f, hf, rfl⟩ := List.mem_map.mp h
    exact ⟨source, f, hf, rfl⟩
  · cases h

/-- A value that a conversion goes into is no mismatch as a whole. -/
theorem Ty.mismatch?_of_opens {t : Ty} {v : Value} (h : t.opens v = true) :
    t.mismatch? v = none := by
  cases t with
  | array element => exact if_pos h
  | map constraint => exact if_pos h
  | record r => exact if_pos h
  | _ => cases h

/-- An entry is converted to the constraint or not at all. -/
theorem Ty.eq_of_entryOrigin {s t : Ty} {v x : Value}
    (h : Ty.entryOrigin (some t) v = .converted s x) : s = t := by
  cases t <;> cases h <;> rfl

theorem Field.eq_of_origin {field : Field} {source : Option Value} {s : Ty} {x : Value}
    (h : field.origin source = .converted s x) : s = field.ty := by
  cases source with
  | none => cases h
  | some v =>
    cases h
    rfl

/-! ## Positions that fail -/

/-- A step into a container: the number of a place, and its label. -/
structure Step where
  number : Nat
  label? : Option String

/-- In a conversion of the value to the type, the position at the end of the path fails with this
error. A position is the value as a whole, or it is in a place of the container that is built. It
fails because it is not converted, or because the container may not hold what it is converted to. A
union adds no step to the path. -/
inductive Fails : Ty → Value → List Step → Error → Prop
  | mismatch {t : Ty} {v : Value} {e : Error} (h : t.mismatch? v = some e) : Fails t v [] e
  | member {members : List Ty} {nullable : Bool} {only : Ty} {v : Value} {path : List Step}
    {e : Error} (hnull : (v.isNull && nullable) = false) (honly : Ty.nonNull members = [only])
    (h : Fails only v path e) : Fails (.union members nullable) v path e
  | inside {t s : Ty} {v x : Value} {i : Nat} {place : Place} {path : List Step} {e : Error}
    (hplace : (t.places v)[i]? = some place) (horigin : place.origin = .converted s x)
    (h : Fails s x path e) : Fails t v (⟨i, place.label?⟩ :: path) e
  | rejected {t : Ty} {v w : Value} {i : Nat} {place : Place} {e : Error}
    (hplace : (t.places v)[i]? = some place) (hgives : place.origin.Gives w)
    (h : place.rejection? w = some e) : Fails t v [⟨i, place.label?⟩] e

/-- The order of positions. The two paths part somewhere, and there the first one takes the earlier
place. -/
inductive Before : List Step → List Step → Prop
  | part {s s' : Step} {path path' : List Step} (h : s.number < s'.number) :
    Before (s :: path) (s' :: path')
  | follow {s : Step} {path path' : List Step} (h : Before path path') :
    Before (s :: path) (s :: path')

/-- The first position that fails: every other one comes after it. -/
structure FirstFailure (t : Ty) (v : Value) (path : List Step) (e : Error) : Prop where
  fails : Fails t v path e
  first : ∀ path' e', Fails t v path' e' → path' = path ∧ e' = e ∨ Before path path'

/-! ## Failures under their labels -/

namespace Error

/-- A failure that is neither labelled nor one of a frozen value or of the depth limit. -/
def IsPlain : Error → Prop
  | inField _ _ | frozen _ | depthLimit _ => False
  | _ => True

/-- The failure of a position as it comes out: under the innermost label on the way there, if there
is one. -/
def under (e : Error) (path : List Step) : Error :=
  match (path.filterMap Step.label?).getLast? with
  | some label => .inField label e
  | none => e

/-- A failure that is passed on from a place, with a label if the place has one. -/
def passedOn (label? : Option String) (e : Error) : Error :=
  match label? with
  | some label => e.annotate label
  | none => e

/-- A plain error is labelled by wrapping it: it has no label yet and is none of the errors that get
none. -/
theorem IsPlain.annotate {e : Error} (h : e.IsPlain) (label : String) :
    e.annotate label = .inField label e := by
  cases e <;> first | rfl | exact h.elim

/-- The root of a labelled error is the plain error below the label. -/
theorem root_under {e : Error} (h : e.IsPlain) (path : List Step) : (e.under path).root = e := by
  have hroot : e.root = e := by cases e <;> first | rfl | exact h.elim
  unfold under
  split
  · exact hroot
  · exact hroot

/-- The innermost label stays, so what is passed on is the failure under one step more. -/
theorem passedOn_under {e : Error} (h : e.IsPlain) (step : Step) (path : List Step) :
    (e.under path).passedOn step.label? = e.under (step :: path) := by
  obtain ⟨number, _ | label⟩ := step
  · simp [passedOn, under]
  · simp only [passedOn, under, List.filterMap_cons, List.getLast?_cons]
    cases (path.filterMap Step.label?).getLast? with
    | none => exact h.annotate label
    | some inner => rfl

end Error

/-! ### Positions in containers -/

/-- A position in the place, or the place as a whole, fails. -/
inductive Place.FailsAt (place : Place) : List Step → Error → Prop
  | inside {s : Ty} {x : Value} {path : List Step} {e : Error}
    (horigin : place.origin = .converted s x) (h : Fails s x path e) : place.FailsAt path e
  | rejected {w : Value} {e : Error} (hgives : place.origin.Gives w)
    (h : place.rejection? w = some e) : place.FailsAt [] e

/-- Positions that fail are in places. -/
theorem Fails.exists_place {t : Ty} {v : Value} {path : List Step} {e : Error}
    (hopens : t.opens v = true) (h : Fails t v path e) :
    ∃ i place rest, (t.places v)[i]? = some place ∧ path = ⟨i, place.label?⟩ :: rest ∧
      place.FailsAt rest e := by
  cases h with
  | mismatch h =>
    rw [Ty.mismatch?_of_opens hopens] at h
    cases h
  | member => cases hopens
  | inside hplace horigin h => exact ⟨_, _, _, hplace, rfl, .inside horigin h⟩
  | rejected hplace hgives h => exact ⟨_, _, [], hplace, rfl, .rejected hgives h⟩

/-- A failure of a place is a failure of the whole, one step longer. -/
theorem Fails.of_place {t : Ty} {v : Value} {i : Nat} {place : Place} {path : List Step} {e : Error}
    (hplace : (t.places v)[i]? = some place) (h : place.FailsAt path e) :
    Fails t v (⟨i, place.label?⟩ :: path) e := by
  cases h with
  | inside horigin h => exact .inside hplace horigin h
  | rejected hgives h => exact .rejected hplace hgives h

/-- A value that does not match as a whole is looked into no further. -/
theorem Fails.eq_of_mismatch? {t : Ty} {v : Value} {path : List Step} {e e' : Error}
    (h : Fails t v path e') (hmismatch : t.mismatch? v = some e) : path = [] ∧ e' = e := by
  -- a value that mismatches does not open up, so it has no places to fail at
  have hclosed {i : Nat} {place : Place} (hplace : (t.places v)[i]? = some place) : False := by
    rw [Ty.mismatch?_of_opens (Ty.opens_of_place hplace)] at hmismatch
    cases hmismatch
  cases h with
  | mismatch h =>
    rw [h] at hmismatch
    exact ⟨rfl, Option.some.inj hmismatch⟩
  | member hnull honly _ => simp [Ty.mismatch?, honly] at hmismatch
  | inside hplace _ _ => exact (hclosed hplace).elim
  | rejected hplace _ _ => exact (hclosed hplace).elim

/-! ### Failures of positions are plain -/

/-- A mismatch is reported as a plain error. -/
theorem Ty.isPlain_of_mismatch? {t : Ty} {v : Value} {e : Error} (h : t.mismatch? v = some e) :
    e.IsPlain := by
  cases t with
  | scalar k =>
    obtain ⟨-, h⟩ := Option.ite_none_left_eq_some.mp h
    split at h <;> cases h <;> trivial
  | any => cases h
  | _ =>
    obtain ⟨-, ⟨⟩⟩ := Option.ite_none_left_eq_some.mp h
    trivial

/-- What `put` rejects is reported as a plain error: a wrong type or an undeclared field. -/
theorem TypedMap.isPlain_of_rejection? (m : TypedMap) (key : String) {w : Value} {e : Error}
    (h : m.rejection? key w = some e) : e.IsPlain := by
  have hmismatch {t : Ty}
      (h : (if t.admits w then none else some (Error.inherentType t.name w.typeName)) = some e) :
      e.IsPlain := by
    obtain ⟨-, ⟨⟩⟩ := Option.ite_none_left_eq_some.mp h
    trivial
  unfold rejection? at h
  split at h
  · exact hmismatch h
  · exact hmismatch h
  · split at h
    · exact hmismatch h
    · cases h
      trivial
  · cases h

/-- What the container of a place rejects is reported as a plain error. -/
theorem Ty.isPlain_of_rejection? {t : Ty} {v w : Value} {i : Nat} {place : Place} {e : Error}
    (hplace : (t.places v)[i]? = some place) (h : place.rejection? w = some e) : e.IsPlain := by
  have hmem := List.mem_of_getElem? hplace
  cases t with
  | array element =>
    obtain ⟨p, rfl⟩ := exists_of_mem_places_array hmem
    obtain ⟨-, ⟨⟩⟩ := Option.ite_none_left_eq_some.mp h
    trivial
  | map constraint =>
    obtain ⟨entry, rfl⟩ := exists_of_mem_places_map hmem
    exact TypedMap.isPlain_of_rejection? (.empty (.map constraint)) entry.1 h
  | record r =>
    obtain ⟨source, f, -, rfl⟩ := exists_of_mem_places_record hmem
    exact TypedMap.isPlain_of_rejection? (.empty (.record r)) f.1 h
  | _ => cases hmem

/-- The failure of a position is labelled by no position further in, and neither frozen values nor
the depth limit are failures of positions. -/
theorem Fails.isPlain {t : Ty} {v : Value} {path : List Step} {e : Error} (h : Fails t v path e) :
    e.IsPlain := by
  induction h with
  | mismatch h => exact Ty.isPlain_of_mismatch? h
  | member _ _ _ ih => exact ih
  | inside _ _ _ ih => exact ih
  | rejected hplace _ h => exact Ty.isPlain_of_rejection? hplace h

end TypedJson
