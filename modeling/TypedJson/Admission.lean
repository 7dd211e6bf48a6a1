import TypedJson.Subtyping

/-!
# TypedJson — admission

Whether a value may be stored where a type is expected. A container is judged by the type it was
declared with and never by its contents: an array of `json` that happens to hold integers only is no
array of `int`. That this is enough rests on every write into a container being checked.
-/

namespace TypedJson

/-- Whether a JSON object may be stored where a map with this constraint is expected. Its values are
JSON and nothing more is known of them. -/
def Ty.constraintAdmitsJson : Option Ty → Bool
  | none => true
  | some t => t.isJson || t.isAny

mutual

/-- Whether a value may be stored where the type is expected. -/
def Ty.admits : Ty → Value → Bool
  | .any, _ => true
  | .null, v => v.isNull
  | .scalar k, .scalar s => s.hasKind k
  | .scalar _, _ => false
  -- a container is judged by its declared type; nothing inside is looked at
  | .json, .array a => a.elementType.isSubtype .json
  | .json, .map m => m.ty.isSubtype .json
  | .json, _ => true
  | .union members _, v => Ty.anyAdmits members v
  | .array element, .array a => a.elementType.isSubtype element
  | .array _, _ => false
  | .map constraint, .map m =>
    -- a JSON object has no constraint to compare, so it goes by the constraint of the target alone
    if m.ty.isJson then Ty.constraintAdmitsJson constraint else m.ty.isSubtype (.map constraint)
  | .map _, _ => false
  | .record r, .map m => m.ty.isSubtype (.record r)
  | .record _, _ => false
termination_by structural t => t

/-- Whether one of the types admits the value. -/
def Ty.anyAdmits : List Ty → Value → Bool
  | [], _ => false
  | t :: rest, v => t.admits v || Ty.anyAdmits rest v
termination_by structural ts => ts

end

/-- The loop over members is spelled out in the definition because it is part of the recursion; this
is what it computes. -/
theorem Ty.anyAdmits_eq_any (ts : List Ty) (v : Value) :
    Ty.anyAdmits ts v = ts.any (·.admits v) := by
  induction ts with
  | nil => rfl
  | cons t rest ih => simp [Ty.anyAdmits, ih]

/-- A union admits what one of its members admits. The flag for null plays no part: a nullable union
has null among its members. -/
theorem Ty.admits_union_iff {members : List Ty} {nullable : Bool} {v : Value} :
    (Ty.union members nullable).admits v = true ↔ ∃ t ∈ members, t.admits v = true := by
  rw [admits, anyAdmits_eq_any, List.any_eq_true]

end TypedJson
