import Mathlib.Data.List.Perm.Subperm
import TypedJson.Proofs.Equality
import TypedJson.Proofs.Loops

/-!
# TypedJson — equality is symmetric and transitive

Equality falls short of an equivalence only where a NaN is in the way of reflexivity. The rest holds
of types and of values alike, and it has to be shown of both at once:

* **`Ty.numEq_symm`**, **`Value.numEq_symm`** — equality is symmetric, keys being distinct;
* **`Ty.numEq_trans`**, **`Value.numEq_trans`** — equality is transitive.

The function is not symmetric to look at: it goes through the fields and entries of its left operand
and looks each of them up on the right. What turns this round is counting.
-/

namespace TypedJson

/-! ## Keyed data without order -/

namespace Entries

variable {α β : Type} {es : Entries α} {es' : Entries β}

/-- Distinct keys, as many entries on the other side, and each key is found there: then the keys are
the same. -/
theorem Distinct.keys_perm (hdistinct : Distinct es) (hlength : es.length = es'.length)
    (hfound : ∀ e ∈ es, ∃ b, es'.lookup e.1 = some b) : (keys es).Perm (keys es') := by
  have hsubset : keys es ⊆ keys es' := by
    intro key hkey
    obtain ⟨e, he, rfl⟩ := List.mem_map.mp hkey
    obtain ⟨b, hb⟩ := hfound e he
    exact List.mem_map.mpr ⟨_, mem_of_lookup hb, rfl⟩
  exact (List.subperm_of_subset hdistinct hsubset).perm_of_length_le (by simp [keys, hlength])

theorem Distinct.of_keys_perm (hdistinct : Distinct es) (hkeys : (keys es).Perm (keys es')) :
    Distinct es' :=
  hkeys.nodup_iff.mp hdistinct

/-- Every entry on one side has a partner on the other, under the same key. -/
theorem Distinct.exists_partner (hdistinct : Distinct es') (hkeys : (keys es).Perm (keys es'))
    {e' : String × β} (he' : e' ∈ es') :
    ∃ a, (e'.1, a) ∈ es ∧ es.lookup e'.1 = some a ∧ es'.lookup e'.1 = some e'.2 := by
  have hmem : e'.1 ∈ keys es := hkeys.mem_iff.mpr (List.mem_map_of_mem he')
  obtain ⟨a, ha⟩ := Option.isSome_iff_exists.mp ((hasKey_iff es e'.1).mpr hmem)
  exact ⟨a, mem_of_lookup ha, ha, hdistinct.lookup_eq_some he'⟩

/-- So the entries can be looked up from the other side too. -/
theorem Distinct.found_of_found {R : α → β → Prop} (hdistinct : Distinct es)
    (hlength : es.length = es'.length)
    (hfound : ∀ e ∈ es, ∃ b, es'.lookup e.1 = some b ∧ R e.2 b) :
    ∀ e' ∈ es', ∃ a, es.lookup e'.1 = some a ∧ R a e'.2 := by
  have hkeys : (keys es).Perm (keys es') :=
    hdistinct.keys_perm hlength fun e he => (hfound e he).imp fun _ => And.left
  intro e' he'
  obtain ⟨a, hmem, ha, he'⟩ := (hdistinct.of_keys_perm hkeys).exists_partner hkeys he'
  obtain ⟨b, hb, hR⟩ := hfound _ hmem
  -- what is found under the key of `e'` can only be `e'` itself
  rw [he'] at hb
  cases hb
  exact ⟨a, ha, hR⟩

end Entries

/-! ## Scalars -/

namespace Binary64

/-- Floats are equal on the same bits, NaN excepted, or when both are zeros: `-0.0` equals `0.0`. -/
theorem numEq_iff {x y : Binary64} :
    x.numEq y = true ↔ x.isNaN = false ∧ (x = y ∨ x.isZero = true ∧ y.isZero = true) := by
  obtain ⟨xbits⟩ := x
  obtain ⟨ybits⟩ := y
  simp [numEq]

/-- A zero has exponent field 0 and a NaN the largest one. -/
theorem isNaN_of_isZero {x : Binary64} (h : x.isZero = true) : x.isNaN = false := by
  have hfield : x.exponentField = 0 := by
    simp only [isZero, Bool.and_eq_true, beq_iff_eq] at h
    exact h.1
  simp [isNaN, hfield]

theorem numEq_symm {x y : Binary64} (h : x.numEq y = true) : y.numEq x = true := by
  obtain ⟨hnan, rfl | ⟨hx, hy⟩⟩ := numEq_iff.mp h
  · exact h
  · exact numEq_iff.mpr ⟨isNaN_of_isZero hy, .inr ⟨hy, hx⟩⟩

theorem numEq_trans {x y z : Binary64} (hxy : x.numEq y = true) (hyz : y.numEq z = true) :
    x.numEq z = true := by
  obtain ⟨hnan, rfl | ⟨hx, -⟩⟩ := numEq_iff.mp hxy
  · exact hyz
  · obtain ⟨-, rfl | ⟨-, hz⟩⟩ := numEq_iff.mp hyz
    · exact hxy
    · exact numEq_iff.mpr ⟨hnan, .inr ⟨hx, hz⟩⟩

end Binary64

theorem Decimal.numEq_iff {d e : Decimal} : d.numEq e = true ↔ d.units = e.units := beq_iff_eq

namespace Scalar

/-- Equality of scalars is symmetric. Floats and decimals have an equality of their own; scalars of
different kinds are never equal, so every other pair is the same scalar twice. -/
theorem numEq_symm {s t : Scalar} (h : s.numEq t = true) : t.numEq s = true := by
  cases s <;> cases t <;> first | cases h | skip
  case float.float x y => exact Binary64.numEq_symm h
  case decimal.decimal d e => exact Decimal.numEq_iff.mpr (Decimal.numEq_iff.mp h).symm
  all_goals
    rw [eq_of_beq h]
    exact beq_self_eq_true _

/-- Equality of scalars is transitive, kind by kind. -/
theorem numEq_trans {s t u : Scalar} (hst : s.numEq t = true) (htu : t.numEq u = true) :
    s.numEq u = true := by
  cases s <;> cases t <;> first | cases hst | skip
  case float.float x y =>
    cases u with
    | float z => exact Binary64.numEq_trans hst htu
    | _ => cases htu
  case decimal.decimal d e =>
    cases u with
    | decimal f =>
      exact Decimal.numEq_iff.mpr ((Decimal.numEq_iff.mp hst).trans (Decimal.numEq_iff.mp htu))
    | _ => cases htu
  all_goals
    rw [eq_of_beq hst]
    exact htu

end Scalar

/-! ## Types and values -/

theorem Ty.numEqOption_iff {c d : Option Ty} :
    Ty.numEqOption c d = true ↔
      c = none ∧ d = none ∨ ∃ t u, c = some t ∧ d = some u ∧ t.numEq u = true := by
  cases c <;> cases d <;> simp [Ty.numEqOption]

/-- Symmetry, over types and values together: a type holds the defaults of its fields and a value
holds its type. The left side has distinct keys and the right side any: that every key of the right
one is found follows from the lengths. -/
theorem numEq_symm_steps : InductionSteps
    (fun t => t.Keyed → ∀ u, t.numEq u = true → u.numEq t = true)
    (fun v => v.Keyed → ∀ w, v.numEq w = true → w.numEq v = true) where
  scalarTy k _ u h := by
    cases u with
    | scalar l =>
      rw [eq_of_beq h]
      exact beq_self_eq_true l
    | _ => cases h
  json _ u h := by cases u <;> first | rfl | cases h
  any _ u h := by cases u <;> first | rfl | cases h
  nullTy _ u h := by cases u <;> first | rfl | cases h
  union members nullable ih hkeyed u h := by
    cases u with
    | union others flag =>
      obtain ⟨hmembers, hflag⟩ := Bool.and_eq_true_iff.mp h
      have hback : Ty.numEqAll others members = true := Ty.numEqAll_iff.mpr <|
        (forall₂_imp_of_mem (Ty.numEqAll_iff.mp hmembers) fun t ht u _ heq =>
          ih t ht (hkeyed.member ht) u heq).flip
      refine Bool.and_eq_true_iff.mpr ⟨hback, ?_⟩
      rw [eq_of_beq hflag]
      exact beq_self_eq_true flag
    | _ => cases h
  arrayTy element ih hkeyed u h := by
    cases u with
    | array other => exact ih hkeyed.element other h
    | _ => cases h
  openMap _ u h := by
    cases u with
    | map constraint => cases constraint <;> first | rfl | cases h
    | _ => cases h
  mapOf t ih hkeyed u h := by
    cases u with
    | map constraint =>
      cases constraint with
      | none => cases h
      | some other => exact ih hkeyed.constraint other h
    | _ => cases h
  record r ihFields ihRest hkeyed u h := by
    cases u with
    | record r' =>
      obtain ⟨hname, hlength, hfields, hrest⟩ := RecordTy.numEq_iff.mp h
      have hdistinct : Entries.Distinct r.fields := hkeyed.self
      have hback : ∀ f ∈ r.fields,
          ∃ other, r'.fields.lookup f.1 = some other ∧ other.numEq f.2 = true := by
        intro f hf
        obtain ⟨other, hother, heq⟩ := hfields f hf
        obtain ⟨hty, hdefault⟩ := Field.numEq_iff.mp heq
        obtain ⟨ihTy, ihDefault⟩ := ihFields f hf
        exact ⟨other, hother, Field.numEq_iff.mpr ⟨ihTy (hkeyed.field hf) _ hty,
          ihDefault (hkeyed.default hf) _ hdefault⟩⟩
      -- lookups go from left to right; as many distinct names on the left as fields on the right
      -- make them go back too
      refine RecordTy.numEq_iff.mpr ⟨hname.symm, hlength.symm,
        hdistinct.found_of_found (R := fun f g => g.numEq f = true) hlength hback, ?_⟩
      refine Ty.numEqOption_iff.mpr ?_
      rcases Ty.numEqOption_iff.mp hrest with ⟨hr, hr'⟩ | ⟨t, t', hr, hr', heq⟩
      · exact .inl ⟨hr', hr⟩
      · exact .inr ⟨t', t, hr', hr, ihRest t hr (hkeyed.rest hr) t' heq⟩
    | _ => cases h
  null _ w h := by cases w <;> first | rfl | cases h
  scalar s _ w h := by
    cases w with
    | scalar t => exact Scalar.numEq_symm h
    | _ => cases h
  array a ihTy ihItems hkeyed w h := by
    cases w with
    | array b =>
      obtain ⟨hty, hitems⟩ := TypedArray.numEq_iff.mp h
      exact TypedArray.numEq_iff.mpr ⟨ihTy hkeyed.elementType _ hty,
        (forall₂_imp_of_mem hitems fun v hv w _ heq => ihItems v hv (hkeyed.item hv) w heq).flip⟩
    | _ => cases h
  map m ihTy ihEntries hkeyed w h := by
    cases w with
    | map n =>
      obtain ⟨hty, hlength, hentries⟩ := TypedMap.numEq_iff.mp h
      have hdistinct : Entries.Distinct m.entries := hkeyed.self
      refine TypedMap.numEq_iff.mpr ⟨ihTy hkeyed.mapTy _ hty, hlength.symm,
        hdistinct.found_of_found (R := fun v w => w.numEq v = true) hlength fun e he => ?_⟩
      obtain ⟨other, hother, heq⟩ := hentries e he
      exact ⟨other, hother, ihEntries e he (hkeyed.entry he) other heq⟩
    | _ => cases h

/-- **Equality of types is symmetric.** -/
theorem Ty.numEq_symm {t u : Ty} (hkeyed : t.Keyed) (h : t.numEq u = true) : u.numEq t = true :=
  numEq_symm_steps.ofTy t hkeyed u h

/-- **Equality of values is symmetric.** -/
theorem Value.numEq_symm {v w : Value} (hkeyed : v.Keyed) (h : v.numEq w = true) :
    w.numEq v = true :=
  numEq_symm_steps.ofValue v hkeyed w h

/-- Transitivity, over types and values together. The entries are chained through the lookups, so it
asks for no distinct keys. -/
theorem numEq_trans_steps : InductionSteps
    (fun t => ∀ u w, t.numEq u = true → u.numEq w = true → t.numEq w = true)
    (fun v => ∀ w x, v.numEq w = true → w.numEq x = true → v.numEq x = true) where
  scalarTy k u w htu huw := by
    cases u with
    | scalar l =>
      rw [eq_of_beq htu]
      exact huw
    | _ => cases htu
  json u w htu huw := by cases u <;> first | exact huw | cases htu
  any u w htu huw := by cases u <;> first | exact huw | cases htu
  nullTy u w htu huw := by cases u <;> first | exact huw | cases htu
  union members nullable ih u w htu huw := by
    cases u with
    | union others flag =>
      cases w with
      | union third flag' =>
        obtain ⟨hmembers, hflag⟩ := Bool.and_eq_true_iff.mp htu
        obtain ⟨hothers, hflag'⟩ := Bool.and_eq_true_iff.mp huw
        refine Bool.and_eq_true_iff.mpr ⟨Ty.numEqAll_iff.mpr ?_, ?_⟩
        · exact forall₂_trans_of_mem (Ty.numEqAll_iff.mp hmembers) (Ty.numEqAll_iff.mp hothers) ih
        · rw [eq_of_beq hflag]
          exact hflag'
      | _ => cases huw
    | _ => cases htu
  arrayTy element ih u w htu huw := by
    cases u with
    | array other =>
      cases w with
      | array third => exact ih other third htu huw
      | _ => cases huw
    | _ => cases htu
  openMap u w htu huw := by
    cases u with
    | map constraint => cases constraint <;> first | exact huw | cases htu
    | _ => cases htu
  mapOf t ih u w htu huw := by
    cases u with
    | map constraint =>
      cases w with
      | map constraint' =>
        cases constraint <;> cases constraint' <;> first | cases htu | cases huw | skip
        exact ih _ _ htu huw
      | _ => cases huw
    | _ => cases htu
  record r ihFields ihRest u w htu huw := by
    cases u with
    | record r' =>
      cases w with
      | record r'' =>
        obtain ⟨hname, hlength, hfields, hrest⟩ := RecordTy.numEq_iff.mp htu
        obtain ⟨hname', hlength', hfields', hrest'⟩ := RecordTy.numEq_iff.mp huw
        refine RecordTy.numEq_iff.mpr ⟨hname.trans hname', hlength.trans hlength', ?_, ?_⟩
        · intro f hf
          obtain ⟨g, hg, hfg⟩ := hfields f hf
          -- the field found in the second record is looked up in the third under the same name
          obtain ⟨k, hk, hgk⟩ := hfields' (f.1, g) (Entries.mem_of_lookup hg)
          obtain ⟨hty, hdefault⟩ := Field.numEq_iff.mp hfg
          obtain ⟨hty', hdefault'⟩ := Field.numEq_iff.mp hgk
          obtain ⟨ihTy, ihDefault⟩ := ihFields f hf
          exact ⟨k, hk, Field.numEq_iff.mpr
            ⟨ihTy _ _ hty hty', ihDefault _ _ hdefault hdefault'⟩⟩
        · refine Ty.numEqOption_iff.mpr ?_
          -- the second rest type is there or not in both hypotheses alike: the two mixed cases are
          -- empty
          rcases Ty.numEqOption_iff.mp hrest with ⟨hr, hr'⟩ | ⟨t, t', hr, hr', heq⟩ <;>
            rw [hr'] at hrest' <;>
            rcases Ty.numEqOption_iff.mp hrest' with ⟨h, hr''⟩ | ⟨s, t'', h, hr'', heq'⟩ <;>
            cases h
          · exact .inl ⟨hr, hr''⟩
          · exact .inr ⟨t, t'', hr, hr'', ihRest t hr t' t'' heq heq'⟩
      | _ => cases huw
    | _ => cases htu
  null w x hvw hwx := by cases w <;> first | exact hwx | cases hvw
  scalar s w x hvw hwx := by
    cases w with
    | scalar t =>
      cases x with
      | scalar u => exact Scalar.numEq_trans hvw hwx
      | _ => cases hwx
    | _ => cases hvw
  array a ihTy ihItems w x hvw hwx := by
    cases w with
    | array b =>
      cases x with
      | array c =>
        obtain ⟨hty, hitems⟩ := TypedArray.numEq_iff.mp hvw
        obtain ⟨hty', hitems'⟩ := TypedArray.numEq_iff.mp hwx
        exact TypedArray.numEq_iff.mpr
          ⟨ihTy _ _ hty hty', forall₂_trans_of_mem hitems hitems' ihItems⟩
      | _ => cases hwx
    | _ => cases hvw
  map m ihTy ihEntries w x hvw hwx := by
    cases w with
    | map n =>
      cases x with
      | map k =>
        obtain ⟨hty, hlength, hentries⟩ := TypedMap.numEq_iff.mp hvw
        obtain ⟨hty', hlength', hentries'⟩ := TypedMap.numEq_iff.mp hwx
        refine TypedMap.numEq_iff.mpr ⟨ihTy _ _ hty hty', hlength.trans hlength', ?_⟩
        intro e he
        obtain ⟨y, hy, hey⟩ := hentries e he
        obtain ⟨z, hz, hyz⟩ := hentries' (e.1, y) (Entries.mem_of_lookup hy)
        exact ⟨z, hz, ihEntries e he y z hey hyz⟩
      | _ => cases hwx
    | _ => cases hvw

/-- **Equality of types is transitive.** -/
theorem Ty.numEq_trans {t u w : Ty} (htu : t.numEq u = true) (huw : u.numEq w = true) :
    t.numEq w = true :=
  numEq_trans_steps.ofTy t u w htu huw

/-- **Equality of values is transitive.** -/
theorem Value.numEq_trans {v w x : Value} (hvw : v.numEq w = true) (hwx : w.numEq x = true) :
    v.numEq x = true :=
  numEq_trans_steps.ofValue v w x hvw hwx

end TypedJson
