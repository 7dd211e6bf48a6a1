import TypedJson.Access
import TypedJson.Proofs.Boxed.Checks
import TypedJson.Proofs.Storage
import TypedJson.Value.Freeze

/-!
# TypedJson — reading and writing without columns

What the operations on containers give on the form without columns is the form of what they give:

* **`TypedArray.get_boxed`**, **`TypedMap.get?_boxed`** — reading;
* **`TypedArray.set_boxed`**, **`TypedMap.put_boxed`**, **`TypedMap.remove_boxed`** — writing;
* **`Value.freeze_boxed`** — freezing.

A write into a column needs the column to fit the element type. Nothing else is asked for.
-/

namespace TypedJson

/-! ## Reading -/

namespace TypedArray

variable (a : TypedArray)

/-- What is read from the form is the form of what is read. -/
theorem get?_boxed (i : Nat) : a.boxed.get? i = (a.get? i).map Value.boxed := by
  rw [get?, get?, toList_boxed, List.getElem?_map]

/-- A read fails at the same indices and in the same words, since the form has as many elements. -/
theorem get_boxed (index : Int) : a.boxed.get index = (a.get index).map Value.boxed := by
  unfold get
  rw [get?_boxed, size_boxed]
  by_cases hneg : index < 0
  · rw [if_pos hneg, if_pos hneg]
    rfl
  · rw [if_neg hneg, if_neg hneg]
    cases a.get? index.toNat <;> rfl

end TypedArray

namespace TypedMap

variable (m : TypedMap)

/-- A look-up in the form gives the form of what is there. -/
theorem get?_boxed (key : String) : m.boxed.get? key = (m.get? key).map Value.boxed := by
  rw [get?, get?, entries_boxed, Entries.lookup_mapped]

/-- Keys are those of the map. -/
theorem hasKey_boxed (key : String) : m.boxed.hasKey key = m.hasKey key := by
  rw [hasKey, hasKey, entries_boxed, Entries.hasKey_mapped]

theorem keys_boxed : m.boxed.keys = m.keys := by
  rw [keys, keys, entries_boxed, Entries.keys_mapped]

theorem size_boxed : m.boxed.size = m.size := by
  rw [size, size, entries_boxed, List.length_map]

end TypedMap

/-- The type for a key is that of the field or the one for all other keys, in its form either
way. -/
theorem RecordTy.typeForKey?_boxed (r : RecordTy) (key : String) :
    r.boxed.typeForKey? key = (r.typeForKey? key).map Ty.boxed := by
  have hfield : r.boxed.field? key = (r.field? key).map Field.boxed := by
    rw [field?, field?, boxed_eq, Entries.lookup_mapped]
  rw [typeForKey?, typeForKey?, hfield]
  -- no such field, so it is the type for all other keys
  cases r.field? key with
  | none => rw [boxed_eq]; rfl
  | some f =>
    show some f.boxed.ty = some f.ty.boxed
    rw [Field.boxed_eq]

namespace Value

/-- Being an object is a matter of the declared type, whose form has the same constructor. -/
theorem asObject?_boxed (v : Value) : v.boxed.asObject? = v.asObject?.map TypedMap.boxed := by
  cases v with
  | map m =>
    obtain ⟨ty, entries, frozen⟩ := m
    cases ty <;> rfl
  | _ => rfl

theorem isFrozen_boxed (v : Value) : v.boxed.isFrozen = v.isFrozen := by
  cases v with
  | array a => exact a.frozen_boxed
  | map m => exact m.frozen_boxed
  | _ => rfl

/-- Accessors see a field where look-ups see a key. -/
theorem getField_boxed (v : Value) (key : String) :
    v.boxed.getField key = (v.getField key).boxed := by
  unfold getField
  rw [asObject?_boxed]
  cases v.asObject? with
  | none => rfl
  | some m =>
    show (m.boxed.get? key).getD .null = ((m.get? key).getD .null).boxed
    rw [TypedMap.get?_boxed]
    cases m.get? key <;> rfl

theorem hasField_boxed (v : Value) (key : String) : v.boxed.hasField key = v.hasField key := by
  unfold hasField
  rw [asObject?_boxed]
  cases v.asObject? with
  | none => rfl
  | some m => exact m.hasKey_boxed key

theorem keys_boxed (v : Value) : v.boxed.keys = v.keys := by
  unfold keys
  rw [asObject?_boxed]
  cases v.asObject? with
  | none => rfl
  | some m => exact m.keys_boxed

/-- Accessors read an element as the array does, under an error of their own. -/
theorem getElement_boxed (v : Value) (index : Int) :
    v.boxed.getElement index = (v.getElement index).map boxed := by
  cases v with
  | array a =>
    show (a.boxed.get index).mapError Error.asReading =
      ((a.get index).mapError Error.asReading).map boxed
    rw [TypedArray.get_boxed]
    cases a.get index <;> rfl
  | _ => rfl

end Value

/-! ## Writing -/

/-- Only scalars have a form to be stored in. -/
theorem Ty.normalize_boxed (t : Ty) (v : Value) :
    t.boxed.normalize v.boxed = (t.normalize v).boxed := by
  cases t with
  | scalar k => cases v <;> rfl
  | _ => rfl

/-- **A write into an array that fits does not see storage.** -/
theorem TypedArray.set_boxed {a : TypedArray} (hfits : a.storage.Fits a.elementType) (index : Int)
    (v : Value) : a.boxed.set index v.boxed = (a.set index v).map boxed := by
  have hname : (Ty.array a.elementType.boxed).name = (Ty.array a.elementType).name :=
    Ty.name_boxed (.array a.elementType)
  rw [set_eq, set_eq, frozen_boxed, size_boxed, elementType_boxed, Ty.admits_boxed,
    Ty.normalize_boxed, hname, Ty.name_boxed]
  cases a.frozen with
  | true => rfl
  | false =>
    by_cases hindex : index < 0 ∨ (a.size : Int) < index
    · simp only [hindex, if_true]
      rfl
    · -- the check comes before the storage is looked at
      cases hadmits : a.elementType.admits v with
      | false =>
        simp only [hindex, if_false, Bool.not_false, if_true, Value.typeName_boxed]
        rfl
      | true =>
        -- both storages take the value, and the elements are the same again afterwards
        obtain ⟨after, hwrite, -⟩ := Storage.write?_of_admits hfits hadmits index.toNat
        have hform : a.boxed.storage.write? index.toNat (a.elementType.normalize v).boxed =
            some (.boxed (after.toList.map Value.boxed)) := by
          rw [Storage.toList_write hwrite, map_writeAt, boxed_eq]
          rfl
        simp only [hindex, if_false, Bool.not_true, Bool.false_eq_true, hwrite, hform, Except.map]
        rw [boxed_eq ⟨a.elementType, after, false⟩]
        rfl

/-- To append is to write at the size, which the form has too. -/
theorem TypedArray.push_boxed {a : TypedArray} (hfits : a.storage.Fits a.elementType) (v : Value) :
    a.boxed.push v.boxed = (a.push v).map boxed := by
  rw [push_eq, push_eq, size_boxed]
  exact set_boxed hfits a.size v

namespace TypedMap

/-- A map refuses a value for its declared type, and names of types are those of their forms. -/
theorem rejection?_boxed (m : TypedMap) (key : String) (v : Value) :
    m.boxed.rejection? key v.boxed = m.rejection? key v := by
  have hmismatch (t : Ty) :
      (if t.boxed.admits v.boxed then none
        else some (Error.inherentType t.boxed.name v.boxed.typeName)) =
      if t.admits v then none else some (Error.inherentType t.name v.typeName) := by
    rw [Ty.admits_boxed, Ty.name_boxed, Value.typeName_boxed]
  unfold rejection?
  rw [ty_boxed]
  cases m.ty with
  | json => exact hmismatch .json
  | map constraint =>
    cases constraint with
    | none => rfl
    | some t => exact hmismatch t
  | record r =>
    have hname : r.boxed.name = r.name := by rw [RecordTy.boxed_eq]
    -- the key has a type of its own, or that of all other keys, or none
    simp only [Ty.boxed, RecordTy.typeForKey?_boxed, hname]
    cases r.typeForKey? key with
    | none => rfl
    | some t => exact hmismatch t
  | _ => rfl

/-- **A put does not see storage.** -/
theorem put_boxed (m : TypedMap) (key : String) (v : Value) :
    m.boxed.put key v.boxed = (m.put key v).map boxed := by
  rw [put_eq, put_eq, frozen_boxed, rejection?_boxed, ty_boxed, Ty.name_boxed, entries_boxed,
    Entries.insert_mapped]
  cases m.frozen with
  | true => rfl
  | false =>
    cases m.rejection? key v with
    | some e => rfl
    | none =>
      -- what is left is that the form of the map with the entry is the form with the entry
      show Except.ok _ = Except.ok (TypedMap.boxed ⟨m.ty, Entries.insert m.entries key v, false⟩)
      rw [boxed_eq]

/-- **A removal does not see storage.** -/
theorem remove_boxed (m : TypedMap) (key : String) :
    m.boxed.remove key = (m.remove key).map boxed := by
  rw [remove_eq, remove_eq, frozen_boxed, ty_boxed, Ty.name_boxed, entries_boxed,
    Entries.erase_mapped]
  cases m.frozen with
  | true => rfl
  | false =>
    show Except.ok _ = Except.ok (TypedMap.boxed ⟨m.ty, Entries.erase m.entries key, false⟩)
    rw [boxed_eq]

end TypedMap

namespace Value

/-- Accessors write a field by a put into the object, so they do not see storage either. -/
theorem setField_boxed (v : Value) (key : String) (field : Value) :
    v.boxed.setField key field.boxed = (v.setField key field).map boxed := by
  rw [setField_eq, setField_eq, asObject?_boxed]
  cases v.asObject? with
  | none => rfl
  | some m =>
    show ((m.boxed.put key field.boxed).map Value.map).mapError _ =
      (((m.put key field).map Value.map).mapError _).map boxed
    rw [TypedMap.put_boxed]
    cases m.put key field <;> rfl

/-- And they remove it by a removal. -/
theorem removeField_boxed (v : Value) (key : String) :
    v.boxed.removeField key = (v.removeField key).map boxed := by
  rw [removeField_eq, removeField_eq, asObject?_boxed]
  cases v.asObject? with
  | none => rfl
  | some m =>
    show (m.boxed.remove key).map Value.map = ((m.remove key).map Value.map).map boxed
    rw [TypedMap.remove_boxed]
    cases m.remove key <;> rfl

/-- The storage of an array fits its element type. -/
def HasFittingStorage : Value → Prop
  | .array a => a.storage.Fits a.elementType
  | _ => True

/-- Writing an element by an accessor makes the check of the type twice, with the same answer on
both sides. -/
theorem setElement_boxed {v : Value} (hfits : v.HasFittingStorage) (index : Int)
    (element : Value) :
    v.boxed.setElement index element.boxed = (v.setElement index element).map boxed := by
  rw [setElement_eq, setElement_eq]
  cases v with
  | array a =>
    show (if !a.boxed.elementType.admits element.boxed then _ else
      ((a.boxed.set index element.boxed).map Value.array).mapError _) = Except.map boxed
        (if !a.elementType.admits element then _ else
          ((a.set index element).map Value.array).mapError _)
    rw [TypedArray.elementType_boxed, Ty.admits_boxed, Ty.name_boxed, typeName_boxed,
      TypedArray.set_boxed hfits]
    cases a.elementType.admits element with
    | false => rfl
    | true => cases a.set index element <;> rfl
  | _ => rfl

/-! ## Freezing -/

/-- Freezing keeps storage where it is, so the order of freezing and of forgetting columns is of no
matter. -/
theorem freeze_boxed (v : Value) : v.boxed.freeze = v.freeze.boxed := by
  induction v with
  | null => rfl
  | scalar s => rfl
  | array a ih =>
    -- element by element the two commute, by the hypothesis
    have hitems : (a.toList.map boxed).map freeze = (a.toList.map freeze).map boxed := by
      rw [List.map_map, List.map_map]
      exact List.map_congr_left ih
    show Value.array a.boxed.freeze = Value.array a.freeze.boxed
    rw [TypedArray.boxed_eq a.freeze, TypedArray.toList_freeze, ← hitems, TypedArray.freeze_eq,
      TypedArray.freeze_eq, TypedArray.boxed_eq, Storage.freeze, freezeAll_eq_map]
  | map m ih =>
    have hentries : (m.entries.map fun e => (e.1, e.2.boxed)).map (fun e => (e.1, e.2.freeze)) =
        (m.entries.map fun e => (e.1, e.2.freeze)).map fun e => (e.1, e.2.boxed) := by
      rw [List.map_map, List.map_map]
      exact List.map_congr_left fun e he => congrArg (Prod.mk e.1) (ih e he)
    show Value.map m.boxed.freeze = Value.map m.freeze.boxed
    rw [TypedMap.boxed_eq m.freeze, TypedMap.freeze_eq, TypedMap.freeze_eq, TypedMap.boxed_eq,
      hentries]

end Value

end TypedJson
