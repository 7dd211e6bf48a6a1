import TypedJson.Zero
import TypedJson.Proofs.Soundness

/-!
# TypedJson — types with zero defaults

Most types are declared without a default of their own: `RecordTy.field` gives each field the zero
of its type, and `Ty.unionOf` sets the flag of a union from its members. Such types have all that a
conversion asks of its target, and so have their zeros.

* **`Ty.zero_everywhere`** — what the zero of any type is made of;
* **`Ty.IsStandard`** — a type that is declared so, through and through;
* **`Ty.IsStandard.everywhere`** — what such a type is made of;
* **`Ty.IsStandard.admits_of_decode`** — so what is converted to it is admitted by it.
-/

namespace TypedJson

namespace Ty

/-! ## Zeros -/

/-- **A zero is made of zeros and of what its type is made of.** So a property of null and of the
zeros of all parts that are no unions holds of everything in it. -/
theorem zero_everywhere {P : Part → Prop} (hnull : P (.value .null))
    (hzero : ∀ t, t.isUnion = false → P (.ty t) → P (.value t.zero)) {t : Ty}
    (h : (Part.ty t).Everywhere P) : (Part.value t.zero).Everywhere P := by
  induction t with
  | scalar k => exact Part.everywhere_scalar.mpr (hzero _ rfl h.self)
  | json => exact Part.everywhere_null.mpr hnull
  | any => exact Part.everywhere_null.mpr hnull
  | null => exact Part.everywhere_null.mpr hnull
  | union members nullable ih =>
    rw [zero]
    split
    · exact Part.everywhere_null.mpr hnull
    · -- the zero of the first member, if there is one
      cases members with
      | nil => exact Part.everywhere_null.mpr hnull
      | cons first rest => exact ih first List.mem_cons_self (h.member List.mem_cons_self)
  | array element _ =>
    exact Part.everywhere_array.mpr ⟨hzero _ rfl h.self, h.element, by simp⟩
  | openMap =>
    exact Part.everywhere_map.mpr ⟨hzero _ rfl h.self, h, List.forall_mem_nil _⟩
  | mapOf t _ =>
    exact Part.everywhere_map.mpr ⟨hzero _ rfl h.self, h, List.forall_mem_nil _⟩
  | record r _ _ =>
    refine Part.everywhere_map.mpr ⟨hzero _ rfl h.self, h, fun e he => ?_⟩
    obtain ⟨f, hf, rfl⟩ := List.mem_map.mp he
    exact h.default hf

/-- A record has the keys of its zero. -/
theorem hasDistinctKeys_zero {t : Ty} (hunion : t.isUnion = false)
    (h : Part.HasDistinctKeys (.ty t)) : Part.HasDistinctKeys (.value t.zero) := by
  cases t with
  | map constraint => exact List.nodup_nil
  | record r =>
    show (Entries.keys (r.fields.map fun f => (f.1, f.2.default))).Nodup
    rw [Entries.keys_mapped]
    exact h
  | union members nullable => cases hunion
  | _ => trivial

/-- No zero is NaN: those of the numbers are 0. -/
theorem isNumber_zero {t : Ty} (hunion : t.isUnion = false) : Part.IsNumber (.value t.zero) := by
  cases t with
  | scalar k => cases k <;> first | rfl | trivial
  | union members nullable => cases hunion
  | _ => trivial

theorem Keyed.zero {t : Ty} (h : t.Keyed) : t.zero.Keyed :=
  zero_everywhere trivial (fun _ => hasDistinctKeys_zero) h

theorem NaNFree.zero {t : Ty} (h : t.NaNFree) : t.zero.NaNFree :=
  zero_everywhere trivial (fun _ hunion _ => isNumber_zero hunion) h

/-! ## Standard types -/

/-- One part of a type, declared without a default of its own. -/
def IsStandardPart : Ty → Prop
  | .record r => Entries.Distinct r.fields ∧ ∀ f ∈ r.fields, f.2.default = f.2.ty.zero
  | .union members nullable => nullable = members.any isNull
  | _ => True

/-- All records in the type have distinct fields with zeros as defaults, and all unions are nullable
exactly if null is one of their members. -/
def IsStandard (t : Ty) : Prop := t.Everywhere IsStandardPart

namespace IsStandard

/-- A property of parts that holds of standard types and of their zeros holds of everything that
such a type is made of. -/
theorem everywhere {P : Part → Prop} (hty : ∀ t, IsStandardPart t → P (.ty t))
    (hnull : P (.value .null)) (hzero : ∀ t, t.isUnion = false → P (.ty t) → P (.value t.zero))
    {t : Ty} (h : t.IsStandard) : (Part.ty t).Everywhere P := by
  have hself : P (.ty t) := hty t h.self
  induction t with
  | scalar k => exact Part.everywhere_scalarTy.mpr hself
  | json => exact Part.everywhere_json.mpr hself
  | any => exact Part.everywhere_any.mpr hself
  | null => exact Part.everywhere_nullTy.mpr hself
  | union members nullable ih =>
    refine Part.everywhere_union.mpr ⟨hself, fun t ht => ?_⟩
    exact ih t ht (h.member ht) (hty t (h.member ht).self)
  | array element ih =>
    exact Part.everywhere_arrayTy.mpr ⟨hself, ih h.element (hty _ h.element.self)⟩
  | openMap => exact Part.everywhere_openMap.mpr hself
  | mapOf t ih =>
    exact Part.everywhere_mapOf.mpr ⟨hself, ih h.constraint (hty _ h.constraint.self)⟩
  | record r ihFields ihRest =>
    obtain ⟨-, hdefaults⟩ := h.self
    refine Part.everywhere_record.mpr ⟨hself, fun f hf => ?_, fun t hr => ?_⟩
    · have hfield : (Part.ty f.2.ty).Everywhere P :=
        ihFields f hf (h.field hf) (hty _ (h.field hf).self)
      -- the default is the zero of the field type, which the induction hypothesis is about
      rw [hdefaults f hf]
      exact ⟨hfield, zero_everywhere hnull hzero hfield⟩
    · have ht : t.IsStandard := fun s hs => h s (.rest hr hs)
      exact ihRest t hr ht (hty t ht.self)

variable {t : Ty} (h : t.IsStandard)

include h

/-- The fields of a standard type have distinct names, and so do those in its defaults. -/
theorem keyed : t.Keyed := by
  refine h.everywhere (fun s hs => ?_) trivial fun _ => hasDistinctKeys_zero
  cases s with
  | record r => exact hs.1
  | _ => trivial

/-- A standard type has zeros for defaults, so none of them is NaN. -/
theorem nanFree : t.NaNFree :=
  h.everywhere (fun _ _ => trivial) trivial fun _ hunion _ => isNumber_zero hunion

/-- The flag of a standard union says whether null is among its alternatives. -/
theorem flagsFit : t.FlagsFit := by
  intro s hs
  have hpart : IsStandardPart s := h s hs
  cases s with
  | union members nullable => exact hpart
  | _ => trivial

theorem numEq_self : t.numEq t = true := Ty.numEq_self h.keyed h.nanFree

/-- **What is converted to a standard type is admitted by it.** -/
theorem admits_of_decode {depth : Depth} {v r : Value} (hr : t.decode depth v = .ok r) :
    t.admits r = true :=
  Ty.admits_of_decode h.keyed h.flagsFit h.nanFree hr

end IsStandard

end Ty

end TypedJson
