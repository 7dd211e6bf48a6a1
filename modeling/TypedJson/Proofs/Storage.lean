import TypedJson.Value.Array
import TypedJson.Value.Freeze

/-!
# TypedJson — storage that fits the element type

A column holds scalars of one type and takes no others. A write into a packed array is nevertheless
never refused by its column, because of what comes before it: the value was admitted by the element
type, it was brought into the form in which that type stores it, and the column is one of that type.

* **`Storage.Fits`** — the storage is boxed, or a column of the element type;
* **`Storage.write?_of_admits`** — then it takes every admitted value, and still fits;
* **`TypedArray.set_of_admits`** — so the checks in front of a write are all that can fail.
-/

namespace TypedJson

/-! ## Columns -/

namespace Column

/-- The type of the scalars in a column. -/
def kind : Column → ScalarKind
  | ints _ => .int
  | floats _ => .float
  | booleans _ => .boolean
  | strings _ => .string
  | bytes _ => .byte

theorem kind_of_empty? {k : ScalarKind} {column : Column} (h : empty? k = some column) :
    column.kind = k := by
  cases k <;> cases h <;> rfl

/-- A column takes every scalar of its type. -/
theorem write?_of_kind {column : Column} {s : Scalar} (h : s.kind = column.kind) (index : Nat) :
    ∃ after, column.write? index s = some after ∧ after.kind = column.kind := by
  cases column <;> cases s <;> first | exact ⟨_, rfl, rfl⟩ | cases h

theorem kind_of_write? {column after : Column} {s : Scalar} {index : Nat}
    (h : column.write? index s = some after) : after.kind = column.kind := by
  cases column <;> cases s <;> cases h <;> rfl

end Column

namespace Scalar

/-- An admitted scalar is stored with the type that it was admitted to. -/
theorem kind_normalize {k : ScalarKind} {s : Scalar} (h : s.hasKind k = true) :
    (s.normalize k).kind = k := by
  cases k <;> cases s <;> first
    | rfl
    | cases h
    | skip
  · rename_i i
    have hrange : 0 ≤ i.toInt ∧ i.toInt ≤ 255 := by simpa [hasKind] using h
    rw [normalize, if_pos hrange]
    rfl

theorem hasKind_normalize {k : ScalarKind} {s : Scalar} (h : s.hasKind k = true) :
    (s.normalize k).hasKind k = true := by
  have hkind := kind_normalize h
  cases hs : s.normalize k <;> rw [hs] at hkind <;> cases hkind <;> rfl

end Scalar

/-! ## Storages -/

/-- A storage that an array of this element type can have: boxed, or a column of the type. -/
def Storage.Fits (elementType : Ty) : Storage → Prop
  | .packed column => elementType = .scalar column.kind
  | .boxed _ => True

/-- A type that is admitted to a scalar type is a scalar of it. -/
theorem Ty.exists_scalar_of_admits {k : ScalarKind} {v : Value}
    (h : (Ty.scalar k).admits v = true) : ∃ s, v = .scalar s ∧ s.hasKind k = true := by
  cases v with
  | scalar s => exact ⟨s, rfl, h⟩
  | _ => cases h

/-- The stored form of an admitted value is admitted. -/
theorem Ty.admits_normalize {t : Ty} {v : Value} (h : t.admits v = true) :
    t.admits (t.normalize v) = true := by
  cases t with
  | scalar k =>
    obtain ⟨s, rfl, hs⟩ := exists_scalar_of_admits h
    exact Scalar.hasKind_normalize hs
  | _ => exact h

/-- **A storage that fits takes every admitted value** in its stored form, and fits afterwards. -/
theorem Storage.write?_of_admits {storage : Storage} {t : Ty} {v : Value} (hfits : storage.Fits t)
    (h : t.admits v = true) (index : Nat) :
    ∃ after, storage.write? index (t.normalize v) = some after ∧ after.Fits t := by
  cases storage with
  | boxed elements => exact ⟨_, rfl, trivial⟩
  | packed column =>
    obtain rfl : t = .scalar column.kind := hfits
    obtain ⟨s, rfl, hs⟩ := Ty.exists_scalar_of_admits h
    obtain ⟨after, hwrite, hkind⟩ := Column.write?_of_kind (Scalar.kind_normalize hs) index
    refine ⟨.packed after, ?_, congrArg Ty.scalar hkind.symm⟩
    show (column.write? index (s.normalize column.kind)).map Storage.packed = some (.packed after)
    rw [hwrite]
    rfl

/-- A write leaves a storage that fits. -/
theorem Storage.fits_of_write? {storage after : Storage} {t : Ty} {index : Nat} {v : Value}
    (hfits : storage.Fits t) (h : storage.write? index v = some after) : after.Fits t := by
  cases storage with
  | boxed elements =>
    cases h
    trivial
  | packed column =>
    cases v with
    | scalar s =>
      obtain ⟨written, hwrite, rfl⟩ := Option.map_eq_some_iff.mp h
      show t = .scalar written.kind
      rw [Column.kind_of_write? hwrite]
      exact hfits
    | _ => cases h

/-- Freezing replaces elements in a boxed storage only, and that fits every type. -/
theorem Storage.fits_freeze {t : Ty} {storage : Storage} (h : storage.Fits t) :
    storage.freeze.Fits t := by
  cases storage with
  | packed column => exact h
  | boxed elements => trivial

namespace TypedArray

/-- A fresh array is packed for the kinds that have a column, and boxed for all other types. -/
theorem fits_empty (t : Ty) : (empty t).storage.Fits t := by
  unfold empty
  split
  · split
    · rename_i hcolumn
      exact congrArg Ty.scalar (Column.kind_of_empty? hcolumn).symm
    · trivial
  · trivial

/-- A write keeps the element type, so a storage that fits goes on to fit. -/
theorem fits_of_set {a after : TypedArray} {index : Int} {v : Value}
    (hfits : a.storage.Fits a.elementType) (h : a.set index v = .ok after) :
    after.storage.Fits after.elementType := by
  obtain ⟨-, -, -, -, storage, hwrite, rfl⟩ := set_eq_ok_iff.mp h
  exact Storage.fits_of_write? hfits hwrite

/-- **An allowed write succeeds**: the array is not frozen, the index is in range, and the element
type admits the value. -/
theorem set_of_admits {a : TypedArray} {index : Int} {v : Value}
    (hfits : a.storage.Fits a.elementType) (hfrozen : a.frozen = false) (hleast : 0 ≤ index)
    (hmost : index ≤ a.size) (h : a.elementType.admits v = true) :
    ∃ after, a.set index v = .ok after := by
  obtain ⟨storage, hwrite, -⟩ := Storage.write?_of_admits hfits h index.toNat
  exact ⟨_, set_eq_ok_iff.mpr ⟨hfrozen, hleast, hmost, h, storage, hwrite, rfl⟩⟩

/-- An array that is not frozen takes every admitted value at its end. -/
theorem push_of_admits {a : TypedArray} {v : Value} (hfits : a.storage.Fits a.elementType)
    (hfrozen : a.frozen = false) (h : a.elementType.admits v = true) :
    ∃ after, a.push v = .ok after :=
  set_of_admits hfits hfrozen (Int.natCast_nonneg a.size) (Int.le_refl a.size) h

end TypedArray

end TypedJson
