import TypedJson.Admission
import TypedJson.Depth
import TypedJson.Proofs.Boxed.Form
import TypedJson.Proofs.Equality
import TypedJson.Proofs.Loops
import TypedJson.Value.Text

/-!
# TypedJson — checks and texts without columns

The form without columns is all that the checks and the texts look at:

* **`Ty.numEq_boxed`**, **`Value.numEq_boxed`** — equality;
* **`Ty.isSubtype_boxed`**, **`Ty.admits_boxed`** — the checks;
* **`Value.text_boxed`**, **`Value.toJson_boxed`**, **`Value.checkNesting_boxed`** — what is read
  off a value.
-/

namespace TypedJson

/-! ## Equality -/

/-- A relation between mapped lists is one between the lists. It is asked for members only, since
that is where an induction hypothesis holds. -/
theorem forall₂_map_iff {α β γ δ : Type} {R : γ → δ → Prop} {S : α → β → Prop} {f : α → γ}
    {g : β → δ} {xs : List α} {ys : List β} (h : ∀ x ∈ xs, ∀ y, R (f x) (g y) ↔ S x y) :
    List.Forall₂ R (xs.map f) (ys.map g) ↔ List.Forall₂ S xs ys := by
  induction xs generalizing ys with
  | nil => cases ys <;> simp
  | cons x xs ih =>
    cases ys with
    | nil => simp
    | cons y ys =>
      simp only [List.map_cons, List.forall₂_cons]
      rw [h x List.mem_cons_self, ih fun x' hx' => h x' (List.mem_cons_of_mem x hx')]

/-- Whether every entry has its equal on the other side, when both sides are in their form. -/
theorem forall_exists_lookup_map_iff {α : Type} {f : α → α} {R : α → α → Prop}
    {entries : Entries α} (others : Entries α) (h : ∀ e ∈ entries, ∀ a, R (f e.2) (f a) ↔ R e.2 a) :
    (∀ e ∈ entries.map fun e => (e.1, f e.2), ∃ other,
        List.lookup e.1 (others.map fun e => (e.1, f e.2)) = some other ∧ R e.2 other) ↔
      ∀ e ∈ entries, ∃ other, others.lookup e.1 = some other ∧ R e.2 other := by
  rw [List.forall_mem_map]
  refine forall₂_congr fun e he => ?_
  rw [Entries.lookup_mapped]
  constructor
  · rintro ⟨other, hother, hR⟩
    -- what is found in the mapped entries is the image of what is there in the entries
    obtain ⟨a, ha, rfl⟩ := Option.map_eq_some_iff.mp hother
    exact ⟨a, ha, (h e he a).mp hR⟩
  · rintro ⟨a, ha, hR⟩
    exact ⟨f a, by rw [ha, Option.map_some], (h e he a).mpr hR⟩

/-- One case for each constructor of a type and of a value, since equality goes from types into
defaults and back. -/
theorem numEq_boxed_steps : InductionSteps
    (fun t => ∀ u : Ty, t.boxed.numEq u.boxed = true ↔ t.numEq u = true)
    (fun v => ∀ w : Value, v.boxed.numEq w.boxed = true ↔ v.numEq w = true) where
  scalarTy k u := by cases u <;> rfl
  json u := by cases u <;> rfl
  any u := by cases u <;> rfl
  nullTy u := by cases u <;> rfl
  union members nullable ih u := by
    cases u with
    | union members' nullable' =>
      rw [Ty.boxed_union, Ty.boxed_union, Ty.numEq, Ty.numEq, Bool.and_eq_true, Bool.and_eq_true,
        Ty.numEqAll_iff, Ty.numEqAll_iff, forall₂_map_iff ih]
    | _ => rfl
  arrayTy element ih u := by
    cases u with
    | array other => exact ih other
    | _ => rfl
  openMap u := by
    cases u with
    | map constraint => cases constraint <;> rfl
    | _ => rfl
  mapOf t ih u := by
    cases u with
    | map constraint =>
      cases constraint with
      | none => rfl
      | some other => exact ih other
    | _ => rfl
  record r ihFields ihRest u := by
    cases u with
    | record r' =>
      show r.boxed.numEq r'.boxed = true ↔ r.numEq r' = true
      have hfield (f) (hf : f ∈ r.fields) (g : Field) :
          f.2.boxed.numEq g.boxed = true ↔ f.2.numEq g = true := by
        obtain ⟨hty, hdefault⟩ := ihFields f hf
        rw [Field.numEq_iff, Field.numEq_iff, Field.boxed_eq, Field.boxed_eq, hty, hdefault]
      have hrest : Ty.numEqOption (r.rest.map Ty.boxed) (r'.rest.map Ty.boxed) = true ↔
          Ty.numEqOption r.rest r'.rest = true := by
        cases hr : r.rest with
        | none => cases r'.rest <;> rfl
        | some t =>
          cases r'.rest with
          | none => rfl
          | some u => exact ihRest t hr u
      -- fields are compared by key, so the one on the other side is looked up in its form
      have hfields := forall_exists_lookup_map_iff (R := fun f g => f.numEq g = true) r'.fields
        hfield
      rw [RecordTy.numEq_iff, RecordTy.numEq_iff, RecordTy.boxed_eq, RecordTy.boxed_eq,
        List.length_map, List.length_map, hfields, hrest]
    | _ => rfl
  null w := by cases w <;> rfl
  scalar s w := by cases w <;> rfl
  array a ihTy ihItems w := by
    cases w with
    | array b =>
      show a.boxed.numEq b.boxed = true ↔ a.numEq b = true
      rw [TypedArray.numEq_iff, TypedArray.numEq_iff, TypedArray.toList_boxed,
        TypedArray.toList_boxed, forall₂_map_iff ihItems, TypedArray.elementType_boxed,
        TypedArray.elementType_boxed, ihTy]
    | _ => rfl
  map m ihTy ihEntries w := by
    cases w with
    | map n =>
      show m.boxed.numEq n.boxed = true ↔ m.numEq n = true
      have hentries := forall_exists_lookup_map_iff (R := fun v w => v.numEq w = true) n.entries
        ihEntries
      rw [TypedMap.numEq_iff, TypedMap.numEq_iff, TypedMap.boxed_eq, TypedMap.boxed_eq, ihTy,
        List.length_map, List.length_map, hentries]
    | _ => rfl

/-- **Equality of types does not see storage.** -/
@[simp] theorem Ty.numEq_boxed (t u : Ty) : t.boxed.numEq u.boxed = t.numEq u :=
  Bool.eq_iff_iff.mpr (numEq_boxed_steps.ofTy t u)

/-- **Equality of values does not see storage.** -/
@[simp] theorem Value.numEq_boxed (v w : Value) : v.boxed.numEq w.boxed = v.numEq w :=
  Bool.eq_iff_iff.mpr (numEq_boxed_steps.ofValue v w)

/-! ## The checks -/

theorem all_map_eq_of_mem {α β : Type} {f : α → β} {p : β → Bool} {q : α → Bool} {xs : List α}
    (h : ∀ x ∈ xs, p (f x) = q x) : (xs.map f).all p = xs.all q := by
  induction xs with
  | nil => rfl
  | cons x xs ih =>
    rw [List.map_cons, List.all_cons, List.all_cons, h x List.mem_cons_self,
      ih fun y hy => h y (List.mem_cons_of_mem x hy)]

theorem any_map_eq_of_mem {α β : Type} {f : α → β} {p : β → Bool} {q : α → Bool} {xs : List α}
    (h : ∀ x ∈ xs, p (f x) = q x) : (xs.map f).any p = xs.any q := by
  induction xs with
  | nil => rfl
  | cons x xs ih =>
    rw [List.map_cons, List.any_cons, List.any_cons, h x List.mem_cons_self,
      ih fun y hy => h y (List.mem_cons_of_mem x hy)]

namespace Ty

/-- Being JSON throughout looks at types of fields only, and defaults are where the form changes
anything. -/
@[simp] theorem isJsonCompatible_boxed (t : Ty) :
    t.boxed.isJsonCompatible = t.isJsonCompatible := by
  induction t with
  | union members nullable ih =>
    rw [boxed_union, isJsonCompatible, isJsonCompatible, allJsonCompatible_eq_all,
      allJsonCompatible_eq_all, all_map_eq_of_mem ih]
  | array element ih => exact ih
  | mapOf t ih => exact ih
  | record r ihFields ihRest =>
    obtain ⟨name, fields, rest⟩ := r
    -- the induction hypothesis is on the type of a field, which is where the form of the field has
    -- it
    have hfields : (fields.map fun f => (f.1, f.2.boxed)).all (·.2.ty.isJsonCompatible) =
        fields.all (·.2.ty.isJsonCompatible) := by
      refine all_map_eq_of_mem fun f hf => ?_
      show f.2.boxed.ty.isJsonCompatible = f.2.ty.isJsonCompatible
      rw [Field.boxed_eq]
      exact ihFields f hf
    have hrest : restJsonCompatible (rest.map boxed) = restJsonCompatible rest := by
      cases rest with
      | none => rfl
      | some t => exact ihRest t rfl
    show RecordTy.isJsonCompatible (RecordTy.boxed ⟨name, fields, rest⟩) =
      RecordTy.isJsonCompatible ⟨name, fields, rest⟩
    rw [RecordTy.boxed_eq, RecordTy.isJsonCompatible, RecordTy.isJsonCompatible,
      Field.allJsonCompatible_eq_all, Field.allJsonCompatible_eq_all, hfields, hrest]
  | _ => rfl

/-- Unions are taken apart at the top, so their alternatives are those of the form. -/
theorem alternatives_boxed (t : Ty) : t.boxed.alternatives = t.alternatives.map boxed := by
  induction t with
  | union members nullable ih =>
    rw [boxed_union, alternatives, alternatives, allAlternatives_eq_flatMap,
      allAlternatives_eq_flatMap, List.map_flatMap, List.flatMap_map]
    exact List.flatMap_congr ih
  | mapOf t _ => rfl
  | _ => rfl

/-- Each of the three ways to be below an alternative is a check of its own, and none of them sees
storage. -/
theorem directlyBelow_boxed (s t : Ty) : s.boxed.directlyBelow t.boxed = s.directlyBelow t := by
  show (s.boxed.numEq t.boxed || t.boxed.isAny || t.boxed.isJson && s.boxed.isJsonCompatible) =
    (s.numEq t || t.isAny || t.isJson && s.isJsonCompatible)
  rw [numEq_boxed, isAny_boxed, isJson_boxed, isJsonCompatible_boxed]

/-- A test of the alternatives of a type, when it does not see storage. -/
theorem any_alternatives_boxed {t : Ty} {p q : Ty → Bool} (h : ∀ a, p a.boxed = q a) :
    t.boxed.alternatives.any p = t.alternatives.any q := by
  rw [alternatives_boxed, List.any_map]
  exact congrArg _ (funext h)

/-- The fields of a record below a constraint, one by one, and the type for all other keys. -/
theorem valuesSubtype_boxed {r : RecordTy} {t : Ty}
    (hfields : ∀ f ∈ r.fields, f.2.ty.boxed.isSubtype t.boxed = f.2.ty.isSubtype t)
    (hrest : ∀ s, r.rest = some s → s.boxed.isSubtype t.boxed = s.isSubtype t) :
    r.boxed.valuesSubtype t.boxed = r.valuesSubtype t := by
  obtain ⟨name, fields, rest⟩ := r
  have hall : (fields.map fun f => (f.1, f.2.boxed)).all (·.2.ty.isSubtype t.boxed) =
      fields.all (·.2.ty.isSubtype t) := by
    refine all_map_eq_of_mem fun f hf => ?_
    show f.2.boxed.ty.isSubtype t.boxed = f.2.ty.isSubtype t
    rw [Field.boxed_eq]
    exact hfields f hf
  have hothers : restSubtype (rest.map boxed) t.boxed = restSubtype rest t := by
    cases rest with
    | none => rfl
    | some s => exact hrest s rfl
  rw [RecordTy.boxed_eq, RecordTy.valuesSubtype, RecordTy.valuesSubtype, Field.allSubtype_eq_all,
    Field.allSubtype_eq_all, hall, hothers]

/-- **Subtyping does not see storage.** -/
@[simp] theorem isSubtype_boxed (s t : Ty) : s.boxed.isSubtype t.boxed = s.isSubtype t := by
  induction s generalizing t with
  | scalar k =>
    -- each alternative of `t` is held against `s` on its own, here and in the cases below
    refine any_alternatives_boxed fun a => ?_
    rw [← directlyBelow_boxed]
    cases a <;> rfl
  | json => exact any_alternatives_boxed fun a => directlyBelow_boxed .json a
  | any => exact any_alternatives_boxed isAny_boxed
  | null => exact any_alternatives_boxed fun a => directlyBelow_boxed .null a
  | union members nullable ih =>
    have hself : numEq (.union (members.map boxed) nullable) t.boxed =
        numEq (.union members nullable) t := by
      rw [← boxed_union, numEq_boxed]
    have hmembers : (members.map boxed).all (·.isSubtype t.boxed) = members.all (·.isSubtype t) :=
      all_map_eq_of_mem fun s hs => ih s hs t
    rw [boxed_union, isSubtype, isSubtype, isAny_boxed, allSubtype_eq_all, allSubtype_eq_all,
      hmembers]
    exact congrArg (· || t.isAny || _) hself
  | array element ih =>
    refine any_alternatives_boxed fun a => ?_
    rw [← directlyBelow_boxed (.array element)]
    cases a with
    | array other => exact congrArg _ (ih other)
    | _ => rfl
  | openMap =>
    refine any_alternatives_boxed fun a => ?_
    rw [← directlyBelow_boxed .openMap]
    cases a with
    | map constraint =>
      cases constraint with
      | none => rfl
      | some other => exact congrArg _ (any_alternatives_boxed isAny_boxed)
    | _ => rfl
  | mapOf s ih =>
    refine any_alternatives_boxed fun a => ?_
    rw [← directlyBelow_boxed (.mapOf s)]
    cases a with
    | map constraint =>
      cases constraint with
      | none => rfl
      | some other => exact congrArg _ (ih other)
    | _ => rfl
  | record r ihFields ihRest =>
    refine any_alternatives_boxed fun a => ?_
    rw [← directlyBelow_boxed (.record r)]
    cases a with
    | map constraint =>
      cases constraint with
      | none => rfl
      | some other =>
        exact congrArg _ (valuesSubtype_boxed (fun f hf => ihFields f hf other)
          fun s hs => ihRest s hs other)
    | _ => rfl

theorem constraintAdmitsJson_boxed (constraint : Option Ty) :
    constraintAdmitsJson (constraint.map boxed) = constraintAdmitsJson constraint := by
  cases constraint with
  | none => rfl
  | some t =>
    show (t.boxed.isJson || t.boxed.isAny) = (t.isJson || t.isAny)
    rw [isJson_boxed, isAny_boxed]

/-- A map type looks at the declared type of a map, or at its own constraint if the map is a JSON
object. Both are types. -/
theorem admits_map_boxed (constraint : Option Ty) (v : Value) :
    (Ty.map constraint).boxed.admits v.boxed = (Ty.map constraint).admits v := by
  cases v with
  | map m =>
    have hsub : m.boxed.ty.isSubtype (.map (constraint.map boxed)) =
        m.ty.isSubtype (.map constraint) := by
      rw [← boxed_map, TypedMap.ty_boxed, isSubtype_boxed]
    rw [boxed_map]
    show (if m.boxed.ty.isJson then constraintAdmitsJson (constraint.map boxed)
        else m.boxed.ty.isSubtype (.map (constraint.map boxed))) =
      if m.ty.isJson then constraintAdmitsJson constraint else m.ty.isSubtype (.map constraint)
    rw [hsub, TypedMap.ty_boxed, isJson_boxed, constraintAdmitsJson_boxed]
  | _ =>
    rw [boxed_map]
    rfl

/-- **Admission does not see storage.** -/
@[simp] theorem admits_boxed (t : Ty) (v : Value) : t.boxed.admits v.boxed = t.admits v := by
  induction t with
  | any => rfl
  -- the two checks that look at a value at all are this one and that of a scalar type
  | null => exact v.isNull_boxed
  | scalar k => cases v <;> rfl
  | json =>
    cases v with
    | array a =>
      -- an array is judged by its element type; that of the form is the form of it
      show a.boxed.elementType.isSubtype Ty.json.boxed = a.elementType.isSubtype .json
      rw [TypedArray.elementType_boxed, isSubtype_boxed]
    | map m =>
      show m.boxed.ty.isSubtype Ty.json.boxed = m.ty.isSubtype .json
      rw [TypedMap.ty_boxed, isSubtype_boxed]
    | _ => rfl
  | union members nullable ih =>
    rw [boxed_union, admits, admits, anyAdmits_eq_any, anyAdmits_eq_any, any_map_eq_of_mem ih]
  | array element _ =>
    cases v with
    | array a =>
      show a.boxed.elementType.isSubtype element.boxed = a.elementType.isSubtype element
      rw [TypedArray.elementType_boxed, isSubtype_boxed]
    | _ => rfl
  | openMap => exact admits_map_boxed none v
  | mapOf t _ => exact admits_map_boxed (some t) v
  | record r _ _ =>
    cases v with
    | map m =>
      show m.boxed.ty.isSubtype (Ty.record r).boxed = m.ty.isSubtype (.record r)
      rw [TypedMap.ty_boxed, isSubtype_boxed]
    | _ => rfl

end Ty

/-! ## What is read off a value -/

/-- The text inside a container. -/
theorem Value.nestedText_boxed (v : Value) : v.boxed.nestedText = v.nestedText := by
  induction v with
  | null => rfl
  | scalar s => rfl
  | array a ih =>
    -- the texts of the elements are the same, by the hypothesis on each of them
    have htexts : (a.toList.map boxed).map nestedText = a.toList.map nestedText := by
      rw [List.map_map]
      exact List.map_congr_left ih
    show a.boxed.text = a.text
    rw [TypedArray.text_eq, TypedArray.text_eq, TypedArray.toList_boxed, htexts]
  | map m ih =>
    have htexts : (m.entries.map fun e => (e.1, e.2.boxed)).map
        (fun e => quoted e.1.toList ++ ':' :: e.2.nestedText) =
          m.entries.map fun e => quoted e.1.toList ++ ':' :: e.2.nestedText := by
      rw [List.map_map]
      exact List.map_congr_left fun e he => by rw [Function.comp_apply, ih e he]
    show m.boxed.text = m.text
    rw [TypedMap.text_eq, TypedMap.text_eq, TypedMap.entries_boxed, htexts]

/-- **The text of a value does not show storage.** -/
@[simp] theorem Value.text_boxed (v : Value) : v.boxed.text = v.text := by
  have hchars : v.boxed.chars = v.chars := by
    cases v with
    | null => rfl
    | scalar s => rfl
    | array a => exact nestedText_boxed (.array a)
    | map m => exact nestedText_boxed (.map m)
  rw [text, hchars, text]

/-- **The document of a value does not show storage.** -/
@[simp] theorem Value.toJson_boxed (v : Value) : v.boxed.toJson = v.toJson := by
  induction v with
  | null => rfl
  | scalar s => rfl
  | array a ih =>
    show (Value.array a.boxed).toJson = (Value.array a).toJson
    rw [toJson_array, toJson_array, TypedArray.toList_boxed, mapM_map_eq_of_mem ih]
  | map m ih =>
    have hentry (e) (he : e ∈ m.entries) : entryToJson (e.1, e.2.boxed) = entryToJson e := by
      rw [entryToJson, entryToJson, ih e he]
    show (Value.map m.boxed).toJson = (Value.map m).toJson
    rw [toJson_map, toJson_map, TypedMap.entries_boxed, mapM_map_eq_of_mem hentry]

/-- **Nesting does not depend on storage.** -/
@[simp] theorem Value.checkNesting_boxed (v : Value) (depth : Depth) :
    v.boxed.checkNesting depth = v.checkNesting depth := by
  induction v generalizing depth with
  | null => rfl
  | scalar s => rfl
  | array a ih =>
    show a.boxed.checkNesting depth = a.checkNesting depth
    rw [TypedArray.checkNesting_eq, TypedArray.checkNesting_eq, TypedArray.toList_boxed]
    -- one level further down for every element, so the hypothesis is used at another depth
    exact bind_congr fun inner => forM_map_eq_of_mem fun v hv => ih v hv inner
  | map m ih =>
    show m.boxed.checkNesting depth = m.checkNesting depth
    rw [TypedMap.checkNesting_eq, TypedMap.checkNesting_eq, TypedMap.entries_boxed]
    exact bind_congr fun inner => forM_map_eq_of_mem fun e he => ih e he inner

end TypedJson
