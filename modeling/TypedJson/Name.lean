import TypedJson.Basic

/-!
# TypedJson — names of types

The text of a type in messages: `int`, `string?`, `int|string|()`, `(int?)[]`, `map<json>`. A record
goes by its own name, so a name tells less than a type.
-/

namespace TypedJson

mutual

/-- The name of a type. A nullable union of one type and null is written with a question mark, and a
union in front of brackets is put into parentheses. -/
def Ty.name : Ty → String
  | .scalar k => k.name
  | .json => "json"
  | .any => "any"
  | .null => "()"
  | .union members nullable =>
    let names := Ty.names members
    match ((members.zip names).filter (!·.1.isNull)).map Prod.snd with
    | [only] => if nullable && members.length == 2 then only ++ "?" else "|".intercalate names
    | _ => "|".intercalate names
  | .array element => if element.isUnion then "(" ++ element.name ++ ")[]" else element.name ++ "[]"
  | .map constraint => Ty.mapName constraint
  | .record r => r.name

/-- The names of types in order. -/
def Ty.names : List Ty → List String
  | [] => []
  | t :: rest => t.name :: Ty.names rest

/-- The name of a map type. -/
def Ty.mapName : Option Ty → String
  | none => "map"
  | some t => "map<" ++ t.name ++ ">"

end

/-- The loop over members, out of the recursion that it is written in. -/
theorem Ty.names_eq_map (ts : List Ty) : Ty.names ts = ts.map Ty.name := by
  induction ts with
  | nil => rfl
  | cons t rest ih => simp [Ty.names, ih]

/-- The name of the type that a value carries. -/
def Value.typeName (v : Value) : String := v.typeOf.name

end TypedJson
