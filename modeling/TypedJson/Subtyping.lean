import TypedJson.Equality

/-!
# TypedJson — subtyping

`isSubtype s t` says that every value of `s` is a value of `t`. Records are compared by name and
fields as a whole, so a record type is a subtype of no other record type, only of maps, of `json`,
of `any` and of unions.

A union on the right is a choice between its alternatives, which are the types found by opening
unions inside unions. So the recursion runs on the left operand alone.
-/

namespace TypedJson

mutual

/-- The types that a type is a choice between: itself, unless it is a union. -/
def Ty.alternatives : Ty → List Ty
  | .union members _ => Ty.allAlternatives members
  | t => [t]
termination_by structural x => x

def Ty.allAlternatives : List Ty → List Ty
  | [] => []
  | t :: rest => t.alternatives ++ Ty.allAlternatives rest
termination_by structural x => x

end

/-- The loop over members, out of the recursion that it is written in; the other loops of this
module follow in the same way. -/
theorem Ty.allAlternatives_eq_flatMap (ts : List Ty) :
    Ty.allAlternatives ts = ts.flatMap Ty.alternatives := by
  induction ts with
  | nil => rfl
  | cons t rest ih => simp [Ty.allAlternatives, ih]

mutual

/-- Every value of the type is JSON. A map without a constraint may hold anything, so it is not. -/
def Ty.isJsonCompatible : Ty → Bool
  | .scalar _ => true
  | .json => true
  | .null => true
  | .any => false
  | .union members _ => Ty.allJsonCompatible members
  | .array element => element.isJsonCompatible
  | .map constraint => Ty.constraintJsonCompatible constraint
  | .record r => r.isJsonCompatible
termination_by structural x => x

def Ty.allJsonCompatible : List Ty → Bool
  | [] => true
  | t :: rest => t.isJsonCompatible && Ty.allJsonCompatible rest
termination_by structural x => x

def Ty.constraintJsonCompatible : Option Ty → Bool
  | none => false
  | some t => t.isJsonCompatible
termination_by structural x => x

def Ty.restJsonCompatible : Option Ty → Bool
  | none => true
  | some t => t.isJsonCompatible
termination_by structural x => x

def RecordTy.isJsonCompatible : RecordTy → Bool
  | ⟨_, fields, rest⟩ => Field.allJsonCompatible fields && Ty.restJsonCompatible rest
termination_by structural x => x

def Field.allJsonCompatible : List (String × Field) → Bool
  | [] => true
  | (_, field) :: rest => field.isJsonCompatible && Field.allJsonCompatible rest
termination_by structural x => x

def Field.isJsonCompatible : Field → Bool
  | ⟨ty, _⟩ => ty.isJsonCompatible
termination_by structural x => x

end

theorem Ty.allJsonCompatible_eq_all (ts : List Ty) :
    Ty.allJsonCompatible ts = ts.all Ty.isJsonCompatible := by
  induction ts with
  | nil => rfl
  | cons t rest ih => simp [Ty.allJsonCompatible, ih]

/-- A union is JSON throughout if all its members are. -/
theorem Ty.isJsonCompatible_union_iff {members : List Ty} {nullable : Bool} :
    (Ty.union members nullable).isJsonCompatible = true ↔
      ∀ t ∈ members, t.isJsonCompatible = true := by
  rw [isJsonCompatible, allJsonCompatible_eq_all, List.all_eq_true]

theorem Field.allJsonCompatible_eq_all (fields : List (String × Field)) :
    Field.allJsonCompatible fields = fields.all fun f => f.2.ty.isJsonCompatible := by
  induction fields with
  | nil => rfl
  | cons f rest ih =>
    obtain ⟨key, ty, default⟩ := f
    simp [Field.allJsonCompatible, Field.isJsonCompatible, ih]

/-- A type that is not a union lies below an alternative whatever its parts are: it is equal to it,
or the alternative is `any`, or it is `json` and the type is JSON. -/
def Ty.directlyBelow (s t : Ty) : Bool :=
  s == t || t.isAny || t.isJson && s.isJsonCompatible

mutual

/-- Every value of the first type is a value of the second. -/
def Ty.isSubtype : Ty → Ty → Bool
  | .union members nullable, t =>
    .union members nullable == t || t.isAny || Ty.allSubtype members t
  | .scalar k, t => t.alternatives.any fun a =>
    -- a byte is an integer to the checks, though the two are stored apart
    (Ty.scalar k).directlyBelow a || match a with
      | .scalar l => k == .byte && l == .int
      | _ => false
  | .array element, t => t.alternatives.any fun a =>
    (Ty.array element).directlyBelow a || match a with
      | .array other => element.isSubtype other
      | _ => false
  | .map constraint, t => t.alternatives.any fun a =>
    (Ty.map constraint).directlyBelow a || match a with
      | .map none => true
      | .map (some other) => Ty.constraintSubtype constraint other
      | _ => false
  | .record r, t => t.alternatives.any fun a =>
    (Ty.record r).directlyBelow a || match a with
      -- whatever a record holds, a map without a constraint may hold it
      | .map none => true
      | .map (some other) => r.valuesSubtype other
      | _ => false
  | .json, t => t.alternatives.any fun a => Ty.json.directlyBelow a
  | .any, t => t.alternatives.any Ty.isAny
  | .null, t => t.alternatives.any fun a => Ty.null.directlyBelow a
termination_by structural x => x

def Ty.allSubtype : List Ty → Ty → Bool
  | [], _ => true
  | s :: rest, t => s.isSubtype t && Ty.allSubtype rest t
termination_by structural x => x

/-- The values of a map; without a constraint they may be anything. -/
def Ty.constraintSubtype : Option Ty → Ty → Bool
  -- the values may be anything, so only a type that takes anything will do
  | none, t => t.alternatives.any Ty.isAny
  | some s, t => s.isSubtype t
termination_by structural x => x

/-- The values under all other keys of a record, if it allows any. -/
def Ty.restSubtype : Option Ty → Ty → Bool
  | none, _ => true
  | some s, t => s.isSubtype t
termination_by structural x => x

/-- Every value that a record of this type can hold under some key is a value of `t`. -/
def RecordTy.valuesSubtype : RecordTy → Ty → Bool
  | ⟨_, fields, rest⟩, t => Field.allSubtype fields t && Ty.restSubtype rest t
termination_by structural x => x

def Field.allSubtype : List (String × Field) → Ty → Bool
  | [], _ => true
  | (_, field) :: rest, t => field.isSubtype t && Field.allSubtype rest t
termination_by structural x => x

def Field.isSubtype : Field → Ty → Bool
  | ⟨ty, _⟩, t => ty.isSubtype t
termination_by structural x => x

end

theorem Ty.allSubtype_eq_all (ss : List Ty) (t : Ty) :
    Ty.allSubtype ss t = ss.all (·.isSubtype t) := by
  induction ss with
  | nil => rfl
  | cons s rest ih => simp [Ty.allSubtype, ih]

/-- A union below a type: all of it at once, or each of its members on its own. Members are compared
with the whole right side, not with one alternative of it. -/
theorem Ty.isSubtype_union_iff {members : List Ty} {nullable : Bool} {t : Ty} :
    (Ty.union members nullable).isSubtype t = true ↔
      ((Ty.union members nullable == t) = true ∨ t.isAny = true) ∨
        ∀ s ∈ members, s.isSubtype t = true := by
  rw [isSubtype, Bool.or_eq_true, Bool.or_eq_true, allSubtype_eq_all, List.all_eq_true]

/-- Only the types of fields are compared. Names and defaults count where record types are compared
for equality. -/
theorem Field.allSubtype_eq_all (fields : List (String × Field)) (t : Ty) :
    Field.allSubtype fields t = fields.all fun f => f.2.ty.isSubtype t := by
  induction fields with
  | nil => rfl
  | cons f rest ih =>
    obtain ⟨key, ty, default⟩ := f
    simp [Field.allSubtype, Field.isSubtype, ih]

end TypedJson
