import TypedJson.Value.Array
import TypedJson.Value.Map
import TypedJson.Proofs.Parts

/-!
# TypedJson — conformance

The checks look at declared types and never into a container. That this is enough rests on what the
container promises of its contents:

* **`Value.Conforms`** — whatever is inside a container, at any depth, would pass the check of a
  write into it;
* **`Value.MapsAreMappings`** — every map is a JSON object, a map or a record, which is what the
  constructor of maps asks of its caller and does not check.
-/

namespace TypedJson

namespace Value

/-- Each element of an array and each entry of a map passes the check that a write into the
container makes. -/
def Checked : Value → Prop
  | .array a => ∀ v ∈ a.toList, a.elementType.admits v = true
  | .map m => ∀ e ∈ m.entries, m.rejection? e.1 e.2 = none
  | _ => True

instance : DecidablePred Checked
  | .array a => inferInstanceAs (Decidable (∀ v ∈ a.toList, a.elementType.admits v = true))
  | .map m => inferInstanceAs (Decidable (∀ e ∈ m.entries, m.rejection? e.1 e.2 = none))
  | .null => .isTrue trivial
  | .scalar _ => .isTrue trivial

/-- The contents of every container in the value pass its own checks. -/
def Conforms (v : Value) : Prop := v.Everywhere Checked

/-- A map has the type of JSON objects, a map type or a record type. -/
def IsMappingIfMap : Value → Prop
  | .map m => m.ty.isMapping = true
  | _ => True

/-- Every map in the value has the type of JSON objects, a map type or a record type. -/
def MapsAreMappings (v : Value) : Prop := v.Everywhere IsMappingIfMap

end Value

/-- The type that an entry under a key has to have is that of a declared field or that of all other
keys. -/
theorem RecordTy.typeForKey?_cases {r : RecordTy} {key : String} {t : Ty}
    (h : r.typeForKey? key = some t) : (∃ f ∈ r.fields, f.2.ty = t) ∨ r.rest = some t := by
  unfold typeForKey? at h
  split at h
  · rename_i field hfield
    exact .inl ⟨(key, field), Entries.mem_of_lookup hfield, Option.some.inj h⟩
  · exact .inr h

end TypedJson
