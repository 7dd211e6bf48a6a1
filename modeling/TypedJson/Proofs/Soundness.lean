import TypedJson.Proofs.Building
import TypedJson.Proofs.Conformance
import TypedJson.Proofs.Kept
import TypedJson.Proofs.Subtyping

/-!
# TypedJson — conversion is sound

What a conversion returns is admitted by the type that it was asked for, so whoever builds a
container out of converted values can store each of them where it belongs.

* **`Ty.admits_of_decode`** — the result is admitted;
* **`Ty.decode_sound`** — and it can be stored, and it conforms if source and defaults do.

Two things are asked of the target. A nullable union has to have null among its members, since the
flag alone makes the conversion let a null through. And the type has to equal itself, which takes
that no default is a NaN: the containers of the result carry the very type that they are then held
against.
-/

namespace TypedJson

/-- Every union in the type is nullable exactly if null is one of its members. -/
def Ty.FlagsFit (t : Ty) : Prop :=
  t.Everywhere fun s => match s with
    | .union members nullable => nullable = members.any Ty.isNull
    | _ => True

/-! ## The result is admitted -/

namespace Ty

/-- A type that equals itself admits the arrays that were declared with its element type. -/
theorem admits_array_self {element : Ty} (hself : element.numEq element = true) {a : TypedArray}
    (ha : a.elementType = element) : (Ty.array element).admits (.array a) = true := by
  show a.elementType.isSubtype element = true
  rw [ha]
  exact isSubtype_of_beq hself

/-- A map or record type that equals itself admits the maps that were declared with it. -/
theorem admits_map_self {t : Ty} (hself : t.numEq t = true) {m : TypedMap} (hm : m.ty = t)
    (hmapping : t.isMapping = true) : t.admits (.map m) = true := by
  have hsub : m.ty.isSubtype t = true := by
    rw [hm]
    exact isSubtype_of_beq hself
  cases t with
  | map constraint =>
    -- a JSON object has a check of its own here, and the type of `m` is not `json`
    have hnot : m.ty.isJson = false := by rw [hm]; rfl
    rw [admits, hnot, if_neg Bool.false_ne_true]
    exact hsub
  | json => exact hsub
  | record r => exact hsub
  | _ => cases hmapping

/-- **What a conversion returns is admitted by its target.** -/
theorem admits_of_decode {t : Ty} (hkeyed : t.Keyed) (hflags : t.FlagsFit) (hnan : t.NaNFree)
    {depth : Depth} {v r : Value} (h : t.decode depth v = .ok r) : t.admits r = true := by
  induction t generalizing depth v r with
  | scalar k =>
    obtain ⟨s, rfl, rfl⟩ := ScalarKind.decode_eq_ok h
    cases s <;> rfl
  | json =>
    rw [decode] at h
    split at h <;> cases h
    assumption
  | any => rfl
  | null =>
    rw [decode] at h
    split at h <;> cases h
    rfl
  | union members nullable ih =>
    rw [admits_union_iff]
    rcases decode_union_eq_ok h with ⟨rfl, rfl⟩ | ⟨only, honly, h⟩
    · -- null is let through by the flag, so the flag has to have a member behind it
      have hflag : true = members.any Ty.isNull := hflags.self
      obtain ⟨t, ht, hnull⟩ := List.any_eq_true.mp hflag.symm
      cases t with
      | null => exact ⟨.null, ht, rfl⟩
      | _ => cases hnull
    · exact ⟨only, honly, ih only honly (hkeyed.member honly) (hflags.member honly)
        (hnan.member honly) h⟩
  | array element _ =>
    -- the result is judged by its declared type, not by its elements
    obtain ⟨out, hout, rfl⟩ := map_eq_ok_iff.mp h
    exact admits_array_self (numEq_self hkeyed.element hnan.element)
      (TypedArray.Building.decodeWith hout).elementType
  | openMap =>
    obtain ⟨out, hout, rfl⟩ := map_eq_ok_iff.mp h
    exact admits_map_self rfl (TypedMap.Building.decodeWith hout).ty rfl
  | mapOf t _ =>
    obtain ⟨out, hout, rfl⟩ := map_eq_ok_iff.mp h
    exact admits_map_self (numEq_self hkeyed hnan) (TypedMap.Building.decodeWith hout).ty rfl
  | record r _ _ =>
    obtain ⟨out, hout, rfl⟩ := map_eq_ok_iff.mp h
    exact admits_map_self (numEq_self hkeyed hnan) (TypedMap.Building.decode_record hout).ty rfl

end Ty

/-! ## The result conforms -/

/-- Writes are checked, so they keep what the checks promise. -/
theorem Value.checked_keptByWrites : KeptByWrites Checked where
  null := trivial
  scalar _ := trivial
  empty t v hv := by simp at hv
  ofAny vs v _ := rfl
  set ha h v hv := by
    obtain ⟨-, -, -, hadmits, htype, -, htoList⟩ := TypedArray.set_eq_ok h
    rw [htoList] at hv
    rw [htype]
    -- the write checks the value and stores its normal form, so the check has to hold of that too
    rcases mem_writeAt hv with hold | rfl
    · exact ha v hold
    · exact Ty.admits_normalize hadmits
  emptyMap t e he := nomatch he
  put hm h e he := by
    obtain ⟨-, haccepted, rfl⟩ := TypedMap.put_eq_ok_iff.mp h
    rcases Entries.mem_insert he with hold | rfl
    · exact hm e hold
    · exact haccepted

/-- **Conversion is sound.** For a target whose unions have fitting flags and whose defaults hold no
NaN, what a conversion returns is admitted by the target. It can be appended to an array that is
being built with this element type, and put into a map or under a field of this type; and where the
source and the defaults conform, so does the result. -/
theorem Ty.decode_sound {t : Ty} (hkeyed : t.Keyed) (hflags : t.FlagsFit) (hnan : t.NaNFree)
    {depth : Depth} {v r : Value} (h : t.decode depth v = .ok r) :
    t.admits r = true ∧
    (∀ out : TypedArray, out.Building t → ∃ after, out.push r = .ok after) ∧
    (∀ (out : TypedMap) (key : String), out.Building (.mapOf t) →
      ∃ after, out.put key r = .ok after) ∧
    (∀ (out : TypedMap) (record : RecordTy) (key : String), out.Building (.record record) →
      record.typeForKey? key = some t → ∃ after, out.put key r = .ok after) ∧
    (v.Conforms → (t.FieldsSatisfy fun f => f.default.Conforms) → r.Conforms) := by
  have hadmits : t.admits r = true := admits_of_decode hkeyed hflags hnan h
  refine ⟨hadmits, fun out hout => hout.push_of_admits hadmits, ?_, ?_, ?_⟩
  · intro out key hout
    exact hout.put_of_accepted ((TypedMap.rejection?_mapOf hout.ty).mpr hadmits)
  · intro out record key hout htype
    exact hout.put_of_accepted ((TypedMap.rejection?_record hout.ty).mpr ⟨t, htype, hadmits⟩)
  · intro hv hdefaults
    exact Value.checked_keptByWrites.decode hdefaults hv h

/-- A record with an optional field and with an array that has a default. -/
def RecordTy.visitor : RecordTy where
  name := "Visitor"
  fields := [("name", .ofTy .string), ("badge", .ofTy (.optional .int)),
    ("stays", ⟨.array .int, .array (.ofBoxed .int [.int 1])⟩)]
  rest := none

/-- A visitor as a JSON object, without a badge. -/
def Value.visitorObject : Value :=
  .map ⟨.json, [("stays", .array (.ofBoxed .json [.int 2])), ("name", .string "Ada")], true⟩

/-- The same visitor as a record: fields in the order of declaration, the stays in a column. -/
def Value.visitorRecord : Value :=
  .map ⟨.record .visitor, [("name", .string "Ada"), ("badge", .null),
    ("stays", .array ⟨.int, .packed (.ints [2]), false⟩)], false⟩

/-- A visitor read from an object: the result is an instance of its type, and conforms since the
source and the defaults do. -/
theorem Ty.decode_sound_visitor :
    (Ty.record .visitor).decode (.root 2) .visitorObject = .ok .visitorRecord ∧
      (Ty.record .visitor).admits .visitorRecord = true ∧ Value.visitorRecord.Conforms := by
  have hkeyed : (Ty.record .visitor).Keyed := by
    simp [Keyed, RecordTy.visitor, Field.ofTy, optional, Ty.zero, Scalar.zero,
      Part.HasDistinctKeys, Entries.Distinct, Entries.keys]
  have hflags : (Ty.record .visitor).FlagsFit := by
    simp [FlagsFit, RecordTy.visitor, Field.ofTy, optional, Ty.isNull]
  have hnan : (Ty.record .visitor).NaNFree := by
    simp [NaNFree, RecordTy.visitor, Field.ofTy, optional, Ty.zero, Scalar.zero, Part.IsNumber]
  have hdefaults : (Ty.record .visitor).FieldsSatisfy fun f => f.default.Conforms := by
    simp [FieldsSatisfy, RecordTy.visitor, Field.ofTy, optional, Ty.zero, Scalar.zero,
      Value.Conforms, -Prod.forall]
    decide
  have hsource : Value.visitorObject.Conforms := by
    simp [Value.Conforms, Value.visitorObject]
    decide
  have hdecode : (Ty.record .visitor).decode (.root 2) .visitorObject = .ok .visitorRecord := rfl
  obtain ⟨hadmits, -, -, -, hconforms⟩ := decode_sound hkeyed hflags hnan hdecode
  exact ⟨hdecode, hadmits, hconforms hsource hdefaults⟩

end TypedJson
