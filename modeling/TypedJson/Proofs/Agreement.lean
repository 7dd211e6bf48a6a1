import TypedJson.Proofs.Induction
import TypedJson.Proofs.Loops

/-!
# TypedJson — conversions at different depths

The depth says whether a container may be entered and is not seen in what a conversion gives. So the
result of a conversion can be spoken of without its depth:

* **`Agree`** — two computations that succeed give the same, while each of them may fail;
* **`Ty.decode_agree`** — conversions of one value to one type agree, at whatever depths.
-/

namespace TypedJson

/-! ## Agreement -/

/-- The two computations do not give different results. One of them or both may fail. -/
def Agree {ε α : Type} (x y : Except ε α) : Prop := ∀ a b, x = .ok a → y = .ok b → a = b

namespace Agree

variable {ε α β γ σ : Type}

@[refl] theorem refl (x : Except ε α) : Agree x x := by
  intro a b ha hb
  exact Except.ok.inj (ha.symm.trans hb)

/-- The second steps need to agree only where both first steps succeeded. -/
theorem bind {x : Except ε α} {y : Except ε β} {f : α → Except ε γ} {g : β → Except ε γ}
    (h : ∀ a b, x = .ok a → y = .ok b → Agree (f a) (g b)) : Agree (x >>= f) (y >>= g) := by
  intro c d hc hd
  obtain ⟨a, ha, hfa⟩ := bind_eq_ok_iff.mp hc
  obtain ⟨b, hb, hgb⟩ := bind_eq_ok_iff.mp hd
  exact h a b ha hb c d hfa hgb

/-- What follows may be the same on both sides: then it gets the same input. -/
theorem then_same {x y : Except ε α} (h : Agree x y) (f : α → Except ε β) :
    Agree (x >>= f) (y >>= f) := by
  refine bind fun a b ha hb => ?_
  rw [h a b ha hb]

/-- The one value that both may give has one image. -/
theorem map {x y : Except ε α} (h : Agree x y) (f : α → β) : Agree (x.map f) (y.map f) := by
  intro c d hc hd
  obtain ⟨a, ha, rfl⟩ := map_eq_ok_iff.mp hc
  obtain ⟨b, hb, rfl⟩ := map_eq_ok_iff.mp hd
  rw [h a b ha hb]

/-- Errors are of no concern here, so they may be renamed in the same way. -/
theorem mapError {x y : Except ε α} (h : Agree x y) (f : ε → β) :
    Agree (x.mapError f) (y.mapError f) := by
  intro a b ha hb
  exact h a b (mapError_eq_ok_iff.mp ha) (mapError_eq_ok_iff.mp hb)

/-- A loop whose steps agree in each state agrees as a whole. The states on the way are equal as
soon as both loops get there. -/
theorem foldlM {step step' : σ → α → Except ε σ} {xs : List α}
    (hstep : ∀ x ∈ xs, ∀ s, Agree (step s x) (step' s x)) (s : σ) :
    Agree (xs.foldlM step s) (xs.foldlM step' s) := by
  induction xs generalizing s with
  | nil => exact .refl _
  | cons x xs ih =>
    rw [List.foldlM_cons, List.foldlM_cons]
    refine bind fun next next' hnext hnext' => ?_
    rw [hstep x List.mem_cons_self s next next' hnext hnext']
    exact ih (fun y hy => hstep y (List.mem_cons_of_mem x hy)) next'

end Agree

/-! ## Conversions -/

/-- The depth is only looked at, never put into a scalar. -/
theorem ScalarKind.decode_agree (k : ScalarKind) (d d' : Depth) (v : Value) :
    Agree (k.decode d v) (k.decode d' v) := by
  cases v with
  | null => cases k <;> exact .refl _
  | scalar s => cases k <;> cases s <;> exact .refl _
  | array a =>
    cases k with
    -- only the text of a container looks at the depth, and only to say whether there is one
    | string => exact .bind fun _ _ _ _ => .refl _
    | _ => exact .refl _
  | map m =>
    cases k with
    | string => exact .bind fun _ _ _ _ => .refl _
    | _ => exact .refl _

/-- An array: whichever of the loops its element type calls for, each of its steps agrees. -/
theorem TypedArray.decodeWith_agree (elementType : Ty)
    {convert : Depth → Value → Except Error Value}
    (hconvert : ∀ d d' v, Agree (convert d v) (convert d' v)) (d d' : Depth) (v : Value) :
    Agree (decodeWith elementType convert d v) (decodeWith elementType convert d' v) := by
  cases v with
  | array source =>
    refine .bind fun inner inner' _ _ => ?_
    have hcollect (out : TypedArray) : Agree (collect (convert inner) source.toList out)
        (collect (convert inner') source.toList out) :=
      .foldlM (fun v _ out => (hconvert inner inner' v).then_same _) out
    have hlabelled (out : TypedArray) : Agree (collectLabelled (convert inner) 0 source.toList out)
        (collectLabelled (convert inner') 0 source.toList out) := by
      rw [collectLabelled_eq_foldlM, collectLabelled_eq_foldlM]
      exact .foldlM (fun p _ out => ((hconvert inner inner' p.1).then_same _).mapError _) out
    cases elementType with
    | scalar k =>
      cases k with
      | byte => exact hlabelled _
      | _ => exact hcollect _
    | any => exact .refl _
    | _ => exact hlabelled _
  | _ => exact .refl _

/-- A map, under any constraint. -/
theorem TypedMap.decode_agree (constraint : Option Ty)
    (hvalues : ∀ t, constraint = some t → ∀ d d' v, Agree (t.decode d v) (t.decode d' v))
    (d d' : Depth) (v : Value) : Agree (decode constraint d v) (decode constraint d' v) := by
  have hwith {convert : Depth → Value → Except Error Value}
      (hconvert : ∀ d d' v, Agree (convert d v) (convert d' v)) :
      Agree (decodeWith constraint convert d v) (decodeWith constraint convert d' v) := by
    unfold decodeWith
    cases v.asObject? with
    | none => exact .refl _
    | some source =>
      refine .bind fun inner inner' _ _ => ?_
      exact .foldlM (fun e _ out => ((hconvert inner inner' e.2).then_same _).mapError _) _
  cases constraint with
  | none => exact hwith fun _ _ _ => .refl _
  | some t =>
    refine hwith fun d d' v => ?_
    split
    · exact .refl _
    · exact hvalues t rfl d d' v

/-- A record. A default does not depend on the depth at all. -/
theorem RecordTy.decode_agree (r : RecordTy)
    (hfields : ∀ f ∈ r.fields, ∀ d d' v, Agree (f.2.ty.decode d v) (f.2.ty.decode d' v))
    (d d' : Depth) (v : Value) : Agree (r.decode d v) (r.decode d' v) := by
  rw [decode_eq, decode_eq]
  cases v.asObject? with
  | none => exact .refl _
  | some source =>
    refine .bind fun inner inner' _ _ => .foldlM (fun f hf out => ?_) _
    have hfield :
        Agree (f.2.decode inner (source.get? f.1)) (f.2.decode inner' (source.get? f.1)) := by
      cases source.get? f.1 with
      | none =>
        rw [Field.decode_none, Field.decode_none]
      | some x =>
        rw [Field.decode_some, Field.decode_some]
        exact hfields f hf inner inner' x
    exact (hfield.then_same _).mapError _

/-- **Two conversions to the same type that succeed give the same**, whatever depths they start
from. -/
theorem Ty.decode_agree (t : Ty) (d d' : Depth) (v : Value) :
    Agree (t.decode d v) (t.decode d' v) := by
  induction t generalizing d d' v with
  | scalar k => exact k.decode_agree d d' v
  | json => exact .refl _
  | any => exact .refl _
  | null => exact .refl _
  | union members nullable ih =>
    rw [decode, decode, decodeOnly_eq, decodeOnly_eq]
    split
    · exact .refl _
    · -- a union converts to its one member or to nothing
      cases hmembers : nonNull members with
      | nil => exact .refl _
      | cons only rest =>
        cases rest with
        | nil =>
          exact ih only (mem_of_nonNull hmembers) d d' v
        | cons _ _ => exact .refl _
  | array element ih => exact (TypedArray.decodeWith_agree element ih d d' v).map Value.array
  | openMap => exact (TypedMap.decode_agree none (by simp) d d' v).map Value.map
  | mapOf t ih =>
    -- `some t = some u` is how the lemma on maps asks for the induction hypothesis
    have hvalues (u : Ty) (h : some t = some u) : ∀ d d' v, Agree (u.decode d v) (u.decode d' v) :=
      Option.some.inj h ▸ ih
    exact (TypedMap.decode_agree (some t) hvalues d d' v).map Value.map
  | record r ih _ => exact (r.decode_agree ih d d' v).map Value.map

end TypedJson
