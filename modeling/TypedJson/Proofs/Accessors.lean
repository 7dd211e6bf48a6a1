import TypedJson.Proofs.Boxed.Operations
import TypedJson.Proofs.Equality
import TypedJson.Proofs.Freezing
import TypedJson.Proofs.Replay

/-!
# TypedJson — what accessors answer

An accessor looks at the shape of a value, makes a check of its own and calls an operation of the
container, which makes checks again and whose errors it wraps. Hence an error may have several
causes on paper. This module says what each accessor answers and when, so that no answer has two
causes, and what a write does to the reads after it:

* **`Value.SetElement`**, **`Value.setElement_outcome`** — the answers to writing an element, in the
  order in which they are considered;
* **`Value.getElement_eq_ok_iff`**, **`Value.getElement_eq_error_iff`** — reading an element;
* **`Value.SetField`**, **`Value.RemoveField`** with **`Value.setField_outcome`**,
  **`Value.removeField_outcome`** — writing and removing a field;
* **`accessors_classified`** — all of this for one value, with the errors that each accessor can
  give.

The second check of the element type never fails, and neither does the column behind it, provided
that columns are of the element type of their arrays, as all are that the library makes
(`Value.hasFittingStorage_keptByCalls`).
-/

namespace TypedJson

/-! ## Elements -/

namespace TypedArray

variable {a b : TypedArray} {index : Int}

/-- A read succeeds at the positions of the array. Negative ones are none of them, also not counted
from the end. -/
theorem get_eq_ok_iff {x : Value} :
    a.get index = .ok x ↔ 0 ≤ index ∧ a.get? index.toNat = some x := by
  unfold get
  by_cases hneg : index < 0
  · have hleast : ¬ 0 ≤ index := by omega
    simp [hneg, hleast]
  · have hleast : 0 ≤ index := by omega
    rw [if_neg hneg]
    cases a.get? index.toNat <;> simp [hleast]

/-- A read fails in one way only, and exactly outside of the array. -/
theorem get_eq_error_iff {e : Error} :
    a.get index = .error e ↔
      ¬ (0 ≤ index ∧ index < a.size) ∧ e = .indexOutOfRange index a.size := by
  unfold get
  by_cases hneg : index < 0
  · have houtside : ¬ (0 ≤ index ∧ index < a.size) := by omega
    simp [hneg, houtside, eq_comm]
  · rw [if_neg hneg]
    have hsize : a.toList.length = a.size := rfl
    -- the list says whether the position is there, the condition says the same in integers
    cases hget : a.get? index.toNat with
    | none =>
      have hlength : a.toList.length ≤ index.toNat := List.getElem?_eq_none_iff.mp hget
      have houtside : ¬ (0 ≤ index ∧ index < a.size) := by omega
      simp [houtside, eq_comm]
    | some x =>
      obtain ⟨hlength, -⟩ := List.getElem?_eq_some_iff.mp hget
      have hinside : 0 ≤ index ∧ index < a.size := by omega
      simp [hinside]

/-- An array after an element was written. It reads the element in the form in which it is stored,
and everywhere else what it read before. It is longer by one if the index was the one past the end;
otherwise even the failures elsewhere are those from before. -/
structure ElementWritten (a b : TypedArray) (index : Int) (x : Value) : Prop where
  elementType : b.elementType = a.elementType
  frozen : b.frozen = a.frozen
  isPacked : b.storage.isPacked = a.storage.isPacked
  size : b.size = if index = a.size then a.size + 1 else a.size
  read : (Value.array b).getElement index = .ok (a.elementType.normalize x)
  others : ∀ i, i ≠ index → ∀ y,
    (Value.array b).getElement i = .ok y ↔ (Value.array a).getElement i = .ok y
  inPlace : index ≠ a.size → ∀ i, i ≠ index →
    (Value.array b).getElement i = (Value.array a).getElement i

end TypedArray

namespace Value

variable {v : Value} {index : Int}

/-- **An element is read exactly at the positions of an array**; a value that is no array reads
null. -/
theorem getElement_eq_ok_iff {x : Value} :
    v.getElement index = .ok x ↔
      (∃ a, v = .array a ∧ 0 ≤ index ∧ a.get? index.toNat = some x) ∨
        v.isArray = false ∧ x = .null := by
  cases v with
  | array a =>
    show (a.get index).mapError Error.asReading = .ok x ↔ _
    rw [mapError_eq_ok_iff, TypedArray.get_eq_ok_iff]
    simp [isArray, asArray?]
  | _ => simp [getElement, isArray, asArray?, eq_comm]

/-- **Everywhere else the array reports the index**, as a failure of reading. -/
theorem getElement_eq_error_iff {e : Error} :
    v.getElement index = .error e ↔
      ∃ a, v = .array a ∧ ¬ (0 ≤ index ∧ index < a.size) ∧
        e = .reading (Error.indexOutOfRange index a.size).message := by
  cases v with
  | array a =>
    show (a.get index).mapError Error.asReading = .error e ↔ _
    rw [mapError_eq_error_iff]
    constructor
    · rintro ⟨inner, hinner, rfl⟩
      obtain ⟨houtside, rfl⟩ := TypedArray.get_eq_error_iff.mp hinner
      exact ⟨a, rfl, houtside, rfl⟩
    · rintro ⟨_, ⟨⟩, houtside, rfl⟩
      exact ⟨_, TypedArray.get_eq_error_iff.mpr ⟨houtside, rfl⟩, rfl⟩
  | _ => simp [getElement]

end Value

namespace TypedArray

variable {a b : TypedArray} {index : Int} {x : Value}

/-- A write at the end makes the array longer by one, any other keeps its size. -/
theorem size_of_set (h : a.set index x = .ok b) :
    b.size = if index = a.size then a.size + 1 else a.size := by
  obtain ⟨-, hleast, hmost, -, -, -, hlist⟩ := set_eq_ok h
  have hsize : a.toList.length = a.size := rfl
  have hend : index.toNat = a.size ↔ index = a.size := by omega
  show b.toList.length = _
  rw [hlist, length_writeAt, hsize, if_congr hend rfl rfl]

/-- Arrays of one size that read the same elements fail in the same way. -/
theorem getElement_congr {i : Int} (hsize : b.size = a.size)
    (h : ∀ y, (Value.array b).getElement i = .ok y ↔ (Value.array a).getElement i = .ok y) :
    (Value.array b).getElement i = (Value.array a).getElement i := by
  cases hread : (Value.array a).getElement i with
  | ok y => exact (h y).mpr hread
  | error e =>
    obtain ⟨_, ⟨⟩, houtside, rfl⟩ := Value.getElement_eq_error_iff.mp hread
    rw [← hsize] at houtside ⊢
    exact Value.getElement_eq_error_iff.mpr ⟨b, rfl, houtside, rfl⟩

/-- What a write of an element leaves to be read. -/
theorem elementWritten_of_set (h : a.set index x = .ok b) : a.ElementWritten b index x := by
  obtain ⟨-, hleast, -, -, helement, hfrozen, -⟩ := set_eq_ok h
  have hread (i : Int) (y : Value) :
      (Value.array b).getElement i = .ok y ↔
        0 ≤ i ∧
          (if i = index then some (a.elementType.normalize x) else a.get? i.toNat) = some y := by
    show (b.get i).mapError Error.asReading = .ok y ↔ _
    rw [mapError_eq_ok_iff, get_eq_ok_iff, get?_of_set h]
    refine and_congr_right fun hi => ?_
    rw [Int.toNat_of_nonneg hi]
  -- a read goes by the written position alone, so any other gives what it gave before
  have hothers (i : Int) (hi : i ≠ index) (y : Value) :
      (Value.array b).getElement i = .ok y ↔ (Value.array a).getElement i = .ok y := by
    rw [hread, if_neg hi, Value.getElement_eq_ok_iff]
    simp [Value.isArray, Value.asArray?]
  refine ⟨helement, hfrozen, (refilled_of_set h).isPacked, size_of_set h, ?_, hothers, ?_⟩
  · rw [hread, if_pos rfl]
    exact ⟨hleast, rfl⟩
  · -- with the size unchanged, failing reads fail in the same words too
    intro hend i hi
    have hsize : b.size = a.size := by
      rw [size_of_set h, if_neg hend]
    exact getElement_congr hsize (hothers i hi)

end TypedArray

namespace Value

variable {v : Value} {index : Int} {x : Value}

/-- The answer to writing an element. What is looked at first: the shape of the value, then the type
of the element, then whether the array is frozen, then the index. -/
inductive SetElement (index : Int) (x : Value) : Value → Except Error Value → Prop
  | noArray {v : Value} (h : v.isArray = false) : SetElement index x v (.ok v)
  | incompatible {a : TypedArray} (h : a.elementType.admits x = false) :
    SetElement index x (.array a) (.error (.incompatible a.elementType.name x.typeName))
  | frozen {a : TypedArray} (h : a.elementType.admits x = true) (hfrozen : a.frozen = true) :
    SetElement index x (.array a) (.error (.frozen (Value.array a).typeName))
  | outOfRange {a : TypedArray} (h : a.elementType.admits x = true) (hthawed : a.frozen = false)
    (hindex : index < 0 ∨ a.size < index) :
    SetElement index x (.array a)
      (.error (.writing .indexOutOfRange (Error.indexOutOfRange index a.size).message))
  | written {a b : TypedArray} (h : a.elementType.admits x = true) (hthawed : a.frozen = false)
    (hindex : 0 ≤ index ∧ index ≤ a.size) (hwritten : a.ElementWritten b index x) :
    SetElement index x (.array a) (.ok (.array b))

/-- **Writing an element is answered in one of five ways**, each with its own condition. -/
theorem setElement_outcome (hfits : v.HasFittingStorage) (index : Int) (x : Value) :
    SetElement index x v (v.setElement index x) := by
  cases v with
  | array a =>
    have hset : (Value.array a).setElement index x =
        if !a.elementType.admits x then .error (.incompatible a.elementType.name x.typeName)
        else ((a.set index x).map Value.array).mapError fun e => e.asWriting e.writeReason :=
      setElement_eq _ index x
    rw [hset]
    -- the cases are the checks in the order in which the code makes them
    cases hadmits : a.elementType.admits x with
    | false => exact .incompatible hadmits
    | true =>
      cases hfrozen : a.frozen with
      | true =>
        rw [TypedArray.set_frozen hfrozen]
        exact .frozen hadmits hfrozen
      | false =>
        by_cases hindex : index < 0 ∨ a.size < index
        · have hrange : a.set index x = .error (.indexOutOfRange index a.size) := by
            rw [TypedArray.set_eq, hfrozen, if_neg Bool.false_ne_true, if_pos hindex]
          rw [hrange]
          exact .outOfRange hadmits hfrozen hindex
        · have hinside : 0 ≤ index ∧ index ≤ a.size := by omega
          -- all checks passed, and a storage that fits takes what its type admits
          obtain ⟨b, hb⟩ := TypedArray.set_of_admits hfits hfrozen hinside.1 hinside.2 hadmits
          rw [hb]
          exact .written hadmits hfrozen hinside (TypedArray.elementWritten_of_set hb)
  | _ => exact .noArray rfl

/-! ## Fields -/

/-- A value after one field was changed, to another value or to none. No other field reads
differently. -/
structure FieldChanged (v after : Value) (key : String) (field : Option Value) : Prop where
  typeOf : after.typeOf = v.typeOf
  isFrozen : after.isFrozen = v.isFrozen
  get : after.getField key = field.getD .null
  has : after.hasField key = field.isSome
  getOther : ∀ other, other ≠ key → after.getField other = v.getField other
  hasOther : ∀ other, other ≠ key → after.hasField other = v.hasField other

/-- The answer to writing a field. -/
inductive SetField (v : Value) (key : String) (x : Value) : Except Error Value → Prop
  | noObject (h : v.isObject = false) : SetField v key x (.ok v)
  | frozen (h : v.isObject = true) (hfrozen : v.isFrozen = true) :
    SetField v key x (.error (.frozen v.typeName))
  | refused (h : v.isObject = true) (hthawed : v.isFrozen = false)
    (hrefused : ¬ v.typeOf.MayHold key x) {t : Ty} (ht : t.admits x = false) :
    SetField v key x
      (.error (.writing .inherentType (Error.inherentType t.name x.typeName).message))
  | written (h : v.isObject = true) (hthawed : v.isFrozen = false) (hholds : v.typeOf.MayHold key x)
    {after : Value} (hchanged : v.FieldChanged after key (some x))
    (hkeys : after.keys = if key ∈ v.keys then v.keys else v.keys ++ [key]) :
    SetField v key x (.ok after)

/-- The answer to removing a field. -/
inductive RemoveField (v : Value) (key : String) : Except Error Value → Prop
  | noObject (h : v.isObject = false) : RemoveField v key (.ok v)
  | frozen (h : v.isObject = true) (hfrozen : v.isFrozen = true) :
    RemoveField v key (.error (.frozen v.typeName))
  | removed (h : v.isObject = true) (hthawed : v.isFrozen = false) {after : Value}
    (hchanged : v.FieldChanged after key none) (hkeys : after.keys = v.keys.erase key) :
    RemoveField v key (.ok after)

/-- Maps of these types are what accessors take for objects. -/
theorem asObject?_of_isObject {m : TypedMap} (h : m.ty.isObject = true) :
    (Value.map m).asObject? = some m := by
  rw [asObject?_map, if_pos h]

/-- What a write of a field finds: no object, a frozen object, or a map that it may write to. -/
theorem object_cases (v : Value) :
    v.isObject = false ∧ v.asObject? = none ∨ v.isObject = true ∧ v.isFrozen = true ∨
      ∃ m, v = .map m ∧ m.ty.isObject = true ∧ m.frozen = false := by
  unfold isObject
  cases hm : v.asObject? with
  | none => exact .inl ⟨rfl, rfl⟩
  | some m =>
    -- only a map is an object, and its type is one of the two that objects have
    obtain rfl := eq_map_of_asObject? hm
    rw [asObject?_map] at hm
    have hobject : m.ty.isObject = true := (Option.ite_none_right_eq_some.mp hm).1
    cases hfrozen : m.frozen with
    | true => exact .inr (.inl ⟨rfl, hfrozen⟩)
    | false => exact .inr (.inr ⟨m, rfl, hobject, hfrozen⟩)

section

variable {m n : TypedMap} (hobject : m.ty.isObject = true)

include hobject

/-- How the four readers see an object; they are the accessors that changes are stated by. -/
theorem isObject_map : (Value.map m).isObject = true := by
  rw [isObject, asObject?_of_isObject hobject]
  rfl

theorem getField_map (key : String) : (Value.map m).getField key = (m.get? key).getD .null := by
  rw [getField, asObject?_of_isObject hobject]

theorem hasField_map (key : String) : (Value.map m).hasField key = (m.get? key).isSome := by
  rw [hasField, asObject?_of_isObject hobject]
  rfl

theorem keys_map : (Value.map m).keys = m.keys := by
  rw [keys, asObject?_of_isObject hobject]

/-- Accessors see what lookups see. -/
theorem fieldChanged_of_get? (hty : n.ty = m.ty) (hfrozen : n.frozen = m.frozen) {key : String}
    {field : Option Value}
    (h : ∀ other, n.get? other = if other = key then field else m.get? other) :
    (Value.map m).FieldChanged (.map n) key field where
  typeOf := hty
  isFrozen := hfrozen
  -- the type is unchanged, so what was an object is one still
  get := by rw [getField_map (hty ▸ hobject), h, if_pos rfl]
  has := by rw [hasField_map (hty ▸ hobject), h, if_pos rfl]
  getOther other hother := by
    rw [getField_map (hty ▸ hobject), getField_map hobject, h, if_neg hother]
  hasOther other hother := by
    rw [hasField_map (hty ▸ hobject), hasField_map hobject, h, if_neg hother]

/-- A put changes what is read under its key and nothing else. -/
theorem fieldChanged_of_put {key : String} (h : m.put key x = .ok n) :
    (Value.map m).FieldChanged (.map n) key (some x) := by
  obtain ⟨-, -, hn⟩ := TypedMap.put_eq_ok_iff.mp h
  have hty : n.ty = m.ty := by rw [hn]
  have hfrozen : n.frozen = m.frozen := by rw [hn]
  exact fieldChanged_of_get? hobject hty hfrozen (TypedMap.get?_of_put h)

/-- A new key goes to the end, a key that is there stays where it is. -/
theorem keys_of_put {key : String} (h : m.put key x = .ok n) :
    (Value.map n).keys = if key ∈ (Value.map m).keys then (Value.map m).keys
      else (Value.map m).keys ++ [key] := by
  obtain ⟨-, -, hn⟩ := TypedMap.put_eq_ok_iff.mp h
  have hty : n.ty = m.ty := by rw [hn]
  rw [keys_map hobject, keys_map (hty ▸ hobject), hn]
  exact Entries.keys_insert m.entries key x

/-- After a removal the key reads as null, like any key that is not there. -/
theorem fieldChanged_of_remove {key : String} (hdistinct : Entries.Distinct m.entries)
    (h : m.remove key = .ok n) : (Value.map m).FieldChanged (.map n) key none := by
  obtain ⟨-, hn⟩ := TypedMap.remove_eq_ok_iff.mp h
  have hty : n.ty = m.ty := by rw [hn]
  have hfrozen : n.frozen = m.frozen := by rw [hn]
  refine fieldChanged_of_get? hobject hty hfrozen fun other => ?_
  rw [hn]
  exact Entries.lookup_erase hdistinct key other

theorem keys_of_remove {key : String} (h : m.remove key = .ok n) :
    (Value.map n).keys = (Value.map m).keys.erase key := by
  obtain ⟨-, hn⟩ := TypedMap.remove_eq_ok_iff.mp h
  have hty : n.ty = m.ty := by rw [hn]
  rw [keys_map hobject, keys_map (hty ▸ hobject), hn]
  exact Entries.keys_erase m.entries key

/-- An object refuses a value only because of its type. -/
theorem exists_of_rejection? {key : String} {e : Error} (h : m.rejection? key x = some e) :
    ∃ t : Ty, t.admits x = false ∧ e = .inherentType t.name x.typeName := by
  have hmismatch {t : Ty}
      (h : (if t.admits x then none else some (Error.inherentType t.name x.typeName)) = some e) :
      ∃ t : Ty, t.admits x = false ∧ e = .inherentType t.name x.typeName := by
    obtain ⟨hnot, heq⟩ := Option.ite_none_left_eq_some.mp h
    exact ⟨t, Bool.eq_false_iff.mpr hnot, (Option.some.inj heq).symm⟩
  cases hty : m.ty with
  | json =>
    simp only [TypedMap.rejection?, hty] at h
    exact hmismatch h
  | map constraint =>
    cases constraint with
    | none =>
      rw [TypedMap.rejection?_openMap hty] at h
      cases h
    | some t =>
      simp only [TypedMap.rejection?, hty] at h
      exact hmismatch h
  | _ =>
    rw [hty] at hobject
    cases hobject

end

/-- **Writing a field is answered in one of four ways.** The value is stored as it is. -/
theorem setField_outcome (key : String) (x : Value) : v.SetField key x (v.setField key x) := by
  obtain ⟨hobject, hnone⟩ | ⟨hobject, hfrozen⟩ | ⟨m, rfl, hm, hthawed⟩ := v.object_cases
  · rw [setField_eq, hnone]
    exact .noObject hobject
  · rw [setField_frozen hfrozen, if_pos hobject]
    exact .frozen hobject hfrozen
  · have hobject : (Value.map m).isObject = true := isObject_map hm
    rw [setField_eq, asObject?_of_isObject hm]
    dsimp only
    cases hrejection : m.rejection? key x with
    | none =>
      have hholds : m.ty.MayHold key x := TypedMap.rejection?_eq_none_iff.mp hrejection
      obtain ⟨n, hput⟩ := TypedMap.exists_put_iff.mpr ⟨hthawed, hholds⟩
      rw [hput]
      exact .written hobject hthawed hholds (fieldChanged_of_put hm hput) (keys_of_put hm hput)
    | some e =>
      -- the type refuses the value, and the put says so
      obtain ⟨t, ht, rfl⟩ := exists_of_rejection? hm hrejection
      have hput : m.put key x = .error (.inherentType t.name x.typeName) := by
        rw [TypedMap.put_eq, hrejection, hthawed]
        rfl
      rw [hput]
      refine .refused hobject hthawed ?_ ht
      intro hholds
      rw [TypedMap.rejection?_eq_none_iff.mpr hholds] at hrejection
      cases hrejection

/-- **Removing a field is answered in one of three ways**, whether the field is there or not. -/
theorem removeField_outcome (hkeyed : v.Keyed) (key : String) :
    v.RemoveField key (v.removeField key) := by
  obtain ⟨hobject, hnone⟩ | ⟨hobject, hfrozen⟩ | ⟨m, rfl, hm, hthawed⟩ := v.object_cases
  · rw [removeField_eq, hnone]
    exact .noObject hobject
  · rw [removeField_frozen hfrozen, if_pos hobject]
    exact .frozen hobject hfrozen
  · have hobject : (Value.map m).isObject = true := isObject_map hm
    have hdistinct : Entries.Distinct m.entries := hkeyed.self
    -- a removal from a map that is not frozen always succeeds
    obtain ⟨n, hremove⟩ : ∃ n, m.remove key = .ok n :=
      ⟨_, TypedMap.remove_eq_ok_iff.mpr ⟨hthawed, rfl⟩⟩
    rw [removeField_eq, asObject?_of_isObject hm]
    dsimp only
    rw [hremove]
    exact .removed hobject hthawed (fieldChanged_of_remove hm hdistinct hremove)
      (keys_of_remove hm hremove)

end Value

/-! ## All accessors -/

/-- **What accessors answer.** For a value with distinct keys whose columns are of the element types
of their arrays: writing an element, writing a field and removing a field are answered as their
relations say, each answer under its own condition and with what it does to later reads. Reading an
element fails exactly outside of an array, as a failure of reading. No write of an element is
reported as a violation of the declared type, a field is refused for being frozen or for its type
and removed unless it is frozen. -/
theorem accessors_classified (v : Value) (hfits : v.HasFittingStorage) (hkeyed : v.Keyed) :
    (∀ index x, Value.SetElement index x v (v.setElement index x)) ∧
    (∀ index x detail, v.setElement index x ≠ .error (.writing .inherentType detail)) ∧
    (∀ index, (∃ e, v.getElement index = .error e) ↔
      ∃ a, v = .array a ∧ ¬ (0 ≤ index ∧ index < a.size)) ∧
    (∀ index e, v.getElement index = .error e → ∃ detail, e = .reading detail) ∧
    (∀ key x, v.SetField key x (v.setField key x)) ∧
    (∀ key x e, v.setField key x = .error e →
      e = .frozen v.typeName ∨ ∃ detail, e = .writing .inherentType detail) ∧
    (∀ key, v.RemoveField key (v.removeField key)) ∧
    ∀ key e, v.removeField key = .error e → e = .frozen v.typeName := by
  refine ⟨Value.setElement_outcome hfits, ?_, ?_, ?_, Value.setField_outcome, ?_,
    Value.removeField_outcome hkeyed, ?_⟩
  · intro index x detail h
    have houtcome := Value.setElement_outcome hfits index x
    rw [h] at houtcome
    -- no constructor of the relation gives this error
    cases houtcome
  · intro index
    simp only [Value.getElement_eq_error_iff]
    constructor
    · rintro ⟨e, a, rfl, houtside, -⟩
      exact ⟨a, rfl, houtside⟩
    · rintro ⟨a, rfl, houtside⟩
      exact ⟨_, a, rfl, houtside, rfl⟩
  · intro index e h
    obtain ⟨a, -, -, rfl⟩ := Value.getElement_eq_error_iff.mp h
    exact ⟨_, rfl⟩
  · intro key x e h
    have houtcome := Value.setField_outcome (v := v) key x
    rw [h] at houtcome
    cases houtcome with
    | frozen => exact .inl rfl
    | refused => exact .inr ⟨_, rfl⟩
  · intro key e h
    have houtcome := Value.removeField_outcome hkeyed key
    rw [h] at houtcome
    cases houtcome with
    | frozen => rfl

/-- An element stored as a byte and read back, an index out of range, and a field that is
removed. -/
theorem accessors_classified_counts :
    (∃ after, (Value.array ⟨.byte, .packed (.bytes [1]), false⟩).setElement 1 (.int 7) = .ok after ∧
      after.getElement 1 = .ok (.byte 7) ∧ after.getElement 0 = .ok (.byte 1)) ∧
    (∀ detail, (Value.array ⟨.byte, .packed (.bytes [1]), false⟩).setElement 5 (.int 7) ≠
      .error (.writing .inherentType detail)) ∧
    ∃ after, (Value.map ⟨.mapOf .int, [("a", .int 1), ("b", .int 2)], false⟩).removeField "a" =
        .ok after ∧
      after.getField "a" = .null ∧ after.getField "b" = .int 2 ∧ after.keys = ["b"] := by
  have hbytes : (Value.array ⟨.byte, .packed (.bytes [1]), false⟩).Keyed := by
    simp [Value.Keyed, Part.HasDistinctKeys, TypedArray.toList, Storage.toList, Column.toScalars]
  have hcounts : (Value.map ⟨.mapOf .int, [("a", .int 1), ("b", .int 2)], false⟩).Keyed := by
    simp [Value.Keyed, Part.HasDistinctKeys, Entries.Distinct, Entries.keys]
  have hfits : (Value.array ⟨.byte, .packed (.bytes [1]), false⟩).HasFittingStorage :=
    show Ty.byte = .scalar (Column.bytes [1]).kind from rfl
  obtain ⟨hset, hnever, -⟩ := accessors_classified _ hfits hbytes
  obtain ⟨-, -, -, -, -, -, hremove, -⟩ := accessors_classified
    (.map ⟨.mapOf .int, [("a", .int 1), ("b", .int 2)], false⟩) trivial hcounts
  refine ⟨?_, hnever 5 (.int 7), ?_⟩
  · have houtcome := hset 1 (.int 7)
    have hafter : (Value.array ⟨.byte, .packed (.bytes [1]), false⟩).setElement 1 (.int 7) =
        .ok (.array ⟨.byte, .packed (.bytes [1, 7]), false⟩) := rfl
    rw [hafter] at houtcome
    cases houtcome with
    | written _ _ _ hwritten =>
      exact ⟨_, hafter, hwritten.read, (hwritten.others 0 (by decide) _).mpr rfl⟩
  · have houtcome := hremove "a"
    -- the relation is inverted for an answer that is a variable, so that each case is one
    generalize hanswer :
      (Value.map ⟨.mapOf .int, [("a", .int 1), ("b", .int 2)], false⟩).removeField
      "a" = answer at houtcome
    cases houtcome with
    | noObject hobject => cases hobject
    | frozen _ hfrozen => cases hfrozen
    | removed _ _ hchanged hkeys =>
      exact ⟨_, rfl, hchanged.get, hchanged.getOther "b" (by decide), hkeys⟩

end TypedJson
