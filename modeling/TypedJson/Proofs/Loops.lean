import Mathlib.Data.List.Forall2
import TypedJson.Decode

/-!
# TypedJson — loops that may fail

Containers are built by loops that stop at the first failure. What a proof needs about such a loop
is independent of what is built:

* **`foldlM_invariant`** — what every step keeps holds at the end;
* **`mapM_eq_ok_iff`** — what is collected comes out of the steps, one by one;
* **`SameOutcome.foldlM`** — two loops come to the same outcome, if each of their steps does.

The rest of the module brings the loops of the conversions into this form.
-/

namespace TypedJson

/-! ## Sequencing -/

section

variable {ε α β γ σ τ : Type}

/-- A chain of two steps succeeds when the first does and the second does on its answer. Every `do`
block of the library is taken apart with this. -/
theorem bind_eq_ok_iff {x : Except ε α} {f : α → Except ε β} {b : β} :
    x >>= f = .ok b ↔ ∃ a, x = .ok a ∧ f a = .ok b := by
  constructor
  · intro h
    cases x with
    | error e => cases h
    | ok a => exact ⟨a, rfl, h⟩
  · rintro ⟨a, rfl, h⟩
    exact h

theorem map_eq_ok_iff {x : Except ε α} {f : α → β} {b : β} :
    x.map f = .ok b ↔ ∃ a, x = .ok a ∧ f a = b := by
  constructor
  · intro h
    cases x with
    | error e => cases h
    | ok a => exact ⟨a, rfl, Except.ok.inj h⟩
  · rintro ⟨a, rfl, rfl⟩
    rfl

theorem exists_map_eq_ok_iff {x : Except ε α} {f : α → β} :
    (∃ b, x.map f = .ok b) ↔ ∃ a, x = .ok a := by
  simp only [map_eq_ok_iff]
  exact ⟨fun ⟨_, a, ha, _⟩ => ⟨a, ha⟩, fun ⟨a, ha⟩ => ⟨f a, a, ha, rfl⟩⟩

theorem mapError_eq_ok_iff {x : Except ε α} {f : ε → γ} {a : α} :
    x.mapError f = .ok a ↔ x = .ok a := by
  constructor
  · intro h
    cases x with
    | error e => cases h
    | ok b => exact congrArg _ (Except.ok.inj h)
  · intro h
    rw [h]
    rfl

theorem mapError_eq_error_iff {x : Except ε α} {f : ε → γ} {e : γ} :
    x.mapError f = .error e ↔ ∃ inner, x = .error inner ∧ f inner = e := by
  constructor
  · intro h
    cases x with
    | error inner => exact ⟨inner, rfl, Except.error.inj h⟩
    | ok a => cases h
  · rintro ⟨inner, rfl, rfl⟩
    rfl

/-! ## Lists position by position -/

/-- Related lists stay related where their elements do. -/
theorem forall₂_imp_of_mem {R S : α → β → Prop} {xs : List α} {ys : List β}
    (h : List.Forall₂ R xs ys) (himp : ∀ x ∈ xs, ∀ y ∈ ys, R x y → S x y) :
    List.Forall₂ S xs ys := by
  induction h with
  | nil => exact .nil
  | cons hhead _ ih =>
    refine .cons (himp _ List.mem_cons_self _ List.mem_cons_self hhead) (ih ?_)
    exact fun x hx y hy => himp x (List.mem_cons_of_mem _ hx) y (List.mem_cons_of_mem _ hy)

/-- Lists related in two steps are related in one. -/
theorem forall₂_trans_of_mem {R : α → β → Prop} {S : β → γ → Prop} {T : α → γ → Prop}
    {xs : List α} {ys : List β} {zs : List γ} (h : List.Forall₂ R xs ys)
    (h' : List.Forall₂ S ys zs) (himp : ∀ x ∈ xs, ∀ y z, R x y → S y z → T x z) :
    List.Forall₂ T xs zs := by
  induction h generalizing zs with
  | nil =>
    cases h'
    exact .nil
  | cons hhead _ ih =>
    cases h' with
    | cons hhead' htail' =>
      exact .cons (himp _ List.mem_cons_self _ _ hhead hhead')
        (ih htail' fun x hx => himp x (List.mem_cons_of_mem _ hx))

/-- An element of the first list has its partner in the second. -/
theorem exists_right_of_mem {R : α → β → Prop} {xs : List α} {ys : List β}
    (h : List.Forall₂ R xs ys) {x : α} (hx : x ∈ xs) : ∃ y ∈ ys, R x y := by
  induction h with
  | nil => cases hx
  | cons hhead _ ih =>
    rcases List.mem_cons.mp hx with rfl | hx
    · exact ⟨_, List.mem_cons_self, hhead⟩
    · obtain ⟨y, hy, hR⟩ := ih hx
      exact ⟨y, List.mem_cons_of_mem _ hy, hR⟩

/-- An element of the second list has its partner in the first. -/
theorem exists_left_of_mem {R : α → β → Prop} {xs : List α} {ys : List β}
    (h : List.Forall₂ R xs ys) {y : β} (hy : y ∈ ys) : ∃ x ∈ xs, R x y :=
  exists_right_of_mem h.flip hy

/-- Related lists have the same image, if partners do. -/
theorem map_eq_map_of_forall₂ {R : α → β → Prop} {f : α → γ} {g : β → γ} {xs : List α} {ys : List β}
    (h : List.Forall₂ R xs ys) (heq : ∀ x ∈ xs, ∀ y ∈ ys, R x y → f x = g y) :
    xs.map f = ys.map g := by
  induction h with
  | nil => rfl
  | cons hhead _ ih =>
    rw [List.map_cons, List.map_cons, heq _ List.mem_cons_self _ List.mem_cons_self hhead, ih]
    exact fun x hx y hy => heq x (List.mem_cons_of_mem _ hx) y (List.mem_cons_of_mem _ hy)

/-- Partners that exist one by one make up a list. -/
theorem exists_forall₂ {R : α → β → Prop} {xs : List α} (h : ∀ x ∈ xs, ∃ y, R x y) :
    ∃ ys, List.Forall₂ R xs ys := by
  induction xs with
  | nil => exact ⟨[], .nil⟩
  | cons x xs ih =>
    obtain ⟨y, hy⟩ := h x List.mem_cons_self
    obtain ⟨ys, hys⟩ := ih fun z hz => h z (List.mem_cons_of_mem x hz)
    exact ⟨y :: ys, .cons hy hys⟩

/-- The same for a list whose elements have partners already. -/
theorem exists_forall₂_of_forall₂ {R : α → β → Prop} {S : β → γ → Prop} {T : γ → α → Prop}
    {xs : List α} {ys : List β} (h : List.Forall₂ R xs ys)
    (hnext : ∀ x ∈ xs, ∀ y ∈ ys, R x y → ∃ z, S y z ∧ T z x) :
    ∃ zs, List.Forall₂ S ys zs ∧ List.Forall₂ T zs xs := by
  induction h with
  | nil => exact ⟨[], .nil, .nil⟩
  | cons hhead _ ih =>
    obtain ⟨z, hS, hT⟩ := hnext _ List.mem_cons_self _ List.mem_cons_self hhead
    obtain ⟨zs, hSs, hTs⟩ := ih fun x hx y hy =>
      hnext x (List.mem_cons_of_mem _ hx) y (List.mem_cons_of_mem _ hy)
    exact ⟨z :: zs, .cons hS hSs, .cons hT hTs⟩

/-- Entries with the same keys are related pair by pair, if their values are. -/
theorem Entries.forall₂_of_keys_eq {R : α → β → Prop} {es : Entries α} {es' : Entries β}
    (hkeys : keys es = keys es')
    (hvalues : ∀ e e', (e, e') ∈ es.zip es' → R e.2 e'.2) :
    List.Forall₂ (fun e e' => e.1 = e'.1 ∧ R e.2 e'.2) es es' := by
  induction es generalizing es' with
  | nil =>
    cases es' with
    | nil => exact .nil
    | cons e' rest' => cases hkeys
  | cons e rest ih =>
    cases es' with
    | nil => cases hkeys
    | cons e' rest' =>
      obtain ⟨hkey, hrest⟩ := List.cons.inj hkeys
      refine .cons ⟨hkey, hvalues e e' List.mem_cons_self⟩ (ih hrest fun x y hxy => ?_)
      exact hvalues x y (List.mem_cons_of_mem _ hxy)

/-! ## One loop -/

/-- **What every step keeps holds at the end** of a loop that did not fail. -/
theorem foldlM_invariant {I : σ → Prop} {step : σ → α → Except ε σ} {xs : List α}
    (hstep : ∀ x ∈ xs, ∀ s s', I s → step s x = .ok s' → I s') {start last : σ} (hstart : I start)
    (h : xs.foldlM step start = .ok last) : I last := by
  induction xs generalizing start with
  | nil => exact Except.ok.inj h ▸ hstart
  | cons x xs ih =>
    rw [List.foldlM_cons] at h
    obtain ⟨next, hnext, hrest⟩ := bind_eq_ok_iff.mp h
    have hkept : I next := hstep x List.mem_cons_self start next hstart hnext
    exact ih (fun y hy => hstep y (List.mem_cons_of_mem x hy)) hkept hrest

/-- A loop of conversions gives one result for each element, in order. -/
theorem mapM_eq_ok_iff {f : α → Except ε β} {xs : List α} {ys : List β} :
    xs.mapM f = .ok ys ↔ List.Forall₂ (fun x y => f x = .ok y) xs ys := by
  induction xs generalizing ys with
  | nil =>
    rw [List.mapM_nil, List.forall₂_nil_left_iff]
    constructor
    · intro h
      exact (Except.ok.inj h).symm
    · intro h
      rw [h]
      rfl
  | cons x xs ih =>
    rw [List.mapM_cons, List.forall₂_cons_left_iff]
    constructor
    · intro h
      obtain ⟨first, hfirst, h⟩ := bind_eq_ok_iff.mp h
      obtain ⟨rest, hrest, h⟩ := bind_eq_ok_iff.mp h
      exact ⟨first, rest, hfirst, ih.mp hrest, (Except.ok.inj h).symm⟩
    · rintro ⟨first, rest, hfirst, hrest, rfl⟩
      exact bind_eq_ok_iff.mpr ⟨first, hfirst, bind_eq_ok_iff.mpr ⟨rest, ih.mpr hrest, rfl⟩⟩

/-- What a loop of conversions gives was converted. -/
theorem exists_mem_of_mapM {f : α → Except ε β} {xs : List α} {ys : List β}
    (h : xs.mapM f = .ok ys) {y : β} (hy : y ∈ ys) : ∃ x ∈ xs, f x = .ok y :=
  exists_left_of_mem (mapM_eq_ok_iff.mp h) hy

/-- A loop of checks goes through if each of them does. -/
theorem forM_eq_ok_iff {f : α → Except ε PUnit} {xs : List α} :
    forM xs f = .ok () ↔ ∀ x ∈ xs, f x = .ok () := by
  induction xs with
  | nil => exact iff_of_true rfl (List.forall_mem_nil _)
  | cons x xs ih =>
    rw [List.forM_cons, bind_eq_ok_iff, List.forall_mem_cons, ← ih]
    exact ⟨fun ⟨(), hhead, htail⟩ => ⟨hhead, htail⟩, fun ⟨hhead, htail⟩ => ⟨(), hhead, htail⟩⟩

/-- A loop of checks that fails stopped at its first failure. -/
theorem forM_eq_error {f : α → Except ε PUnit} {xs : List α} {e : ε} (h : forM xs f = .error e) :
    ∃ i x, xs[i]? = some x ∧ f x = .error e ∧
      ∀ (j : Nat) (y : α), j < i → xs[j]? = some y → f y = .ok () := by
  induction xs with
  | nil => cases h
  | cons x xs ih =>
    rw [List.forM_cons] at h
    cases hx : f x with
    | error e' =>
      rw [hx] at h
      cases h
      -- the head fails: nothing comes before it
      exact ⟨0, x, rfl, hx, fun j y hj => absurd hj (Nat.not_lt_zero j)⟩
    | ok u =>
      rw [hx] at h
      obtain ⟨i, z, hz, hfz, hbefore⟩ := ih h
      -- the head succeeds: the failing position moves by one and the head joins those before it
      refine ⟨i + 1, z, hz, hfz, fun j y hj hy => ?_⟩
      cases j with
      | zero =>
        cases hy
        exact hx
      | succ j => exact hbefore j y (Nat.lt_of_succ_lt_succ hj) hy

/-- A loop over mapped elements. -/
theorem mapM_map_eq_of_mem {f : α → β} {g : β → Except ε γ} {h : α → Except ε γ} {xs : List α}
    (heq : ∀ x ∈ xs, g (f x) = h x) : (xs.map f).mapM g = xs.mapM h := by
  induction xs with
  | nil => rfl
  | cons x xs ih =>
    rw [List.map_cons, List.mapM_cons, List.mapM_cons, heq x List.mem_cons_self,
      ih fun y hy => heq y (List.mem_cons_of_mem x hy)]

/-- The same for a loop of checks. -/
theorem forM_map_eq_of_mem {f : α → β} {g : β → Except ε PUnit} {h : α → Except ε PUnit}
    {xs : List α} (heq : ∀ x ∈ xs, g (f x) = h x) : forM (xs.map f) g = forM xs h := by
  induction xs with
  | nil => rfl
  | cons x xs ih =>
    rw [List.map_cons, List.forM_cons, List.forM_cons, heq x List.mem_cons_self,
      ih fun y hy => heq y (List.mem_cons_of_mem x hy)]

end

/-! ## Two computations side by side -/

/-- Two computations come to the same: both give a result, and the results are related, or both fail
with the same error. -/
inductive SameOutcome {ε α β : Type} (R : α → β → Prop) : Except ε α → Except ε β → Prop
  | ok {a : α} {b : β} (h : R a b) : SameOutcome R (.ok a) (.ok b)
  | error (e : ε) : SameOutcome R (.error e) (.error e)

namespace SameOutcome

variable {ε ε' α β γ δ σ τ : Type} {R : α → β → Prop} {S : γ → δ → Prop} {x : Except ε α}
  {y : Except ε β}

/-- Two chains have the same outcome when both of their steps do. -/
theorem bind {f : α → Except ε γ} {g : β → Except ε δ} (h : SameOutcome R x y)
    (hnext : ∀ a b, R a b → SameOutcome S (f a) (g b)) : SameOutcome S (x >>= f) (y >>= g) := by
  cases h with
  | ok h => exact hnext _ _ h
  | error e => exact .error e

theorem map {f : α → γ} {g : β → δ} (h : SameOutcome R x y) (hfg : ∀ a b, R a b → S (f a) (g b)) :
    SameOutcome S (x.map f) (y.map g) := by
  cases h with
  | ok h => exact .ok (hfg _ _ h)
  | error e => exact .error e

theorem mapError {f : ε → ε'} (h : SameOutcome R x y) :
    SameOutcome R (x.mapError f) (y.mapError f) := by
  cases h with
  | ok h => exact .ok h
  | error e => exact .error (f e)

theorem mono {R' : α → β → Prop} (h : SameOutcome R x y) (himp : ∀ a b, R a b → R' a b) :
    SameOutcome R' x y := by
  cases h with
  | ok h => exact .ok (himp _ _ h)
  | error e => exact .error e

theorem symm (h : SameOutcome R x y) : SameOutcome (fun b a => R a b) y x := by
  cases h with
  | ok h => exact .ok h
  | error e => exact .error e

/-- Over a computation in between, whose answer is the link. -/
theorem trans {T : β → γ → Prop} {z : Except ε γ} (hxy : SameOutcome R x y)
    (hyz : SameOutcome T y z) : SameOutcome (fun a c => ∃ b, R a b ∧ T b c) x z := by
  cases hxy with
  | ok hR =>
    cases hyz with
    | ok hT => exact .ok ⟨_, hR, hT⟩
  | error e =>
    cases hyz with
    | error e => exact .error e

theorem refl {R : α → α → Prop} (hR : ∀ a, R a a) (x : Except ε α) : SameOutcome R x x := by
  cases x with
  | ok a => exact .ok (hR a)
  | error e => exact .error e

/-- What the two outcomes are. -/
theorem ok_or_error (h : SameOutcome R x y) :
    (∃ a b, x = .ok a ∧ y = .ok b ∧ R a b) ∨ ∃ e, x = .error e ∧ y = .error e := by
  cases h with
  | ok h => exact .inl ⟨_, _, rfl, rfl, h⟩
  | error e => exact .inr ⟨e, rfl, rfl⟩

/-- Outcomes that are equal once they are mapped are the same, with results that are. -/
theorem of_map_eq {f : α → γ} {g : β → γ} (h : x.map f = y.map g) :
    SameOutcome (fun a b => f a = g b) x y := by
  cases x with
  | ok a =>
    cases y with
    | ok b => exact .ok (Except.ok.inj h)
    | error e => cases h
  | error e =>
    cases y with
    | ok b => cases h
    | error e' => exact Except.error.inj h ▸ .error e

/-- What is known of the results on each side can be added. -/
theorem and {P : α → Prop} {Q : β → Prop} (h : SameOutcome R x y) (hx : ∀ a, x = .ok a → P a)
    (hy : ∀ b, y = .ok b → Q b) : SameOutcome (fun a b => R a b ∧ P a ∧ Q b) x y := by
  cases h with
  | ok h => exact .ok ⟨h, hx _ rfl, hy _ rfl⟩
  | error e => exact .error e

/-- **Two loops, the second over mapped elements, come to the same outcome** if each two steps
do. -/
theorem foldlM {R : σ → τ → Prop} {f : α → β} {step : σ → α → Except ε σ}
    {step' : τ → β → Except ε τ} {xs : List α}
    (hstep : ∀ x ∈ xs, ∀ s t, R s t → SameOutcome R (step s x) (step' t (f x))) {s : σ} {t : τ}
    (hst : R s t) : SameOutcome R (xs.foldlM step s) ((xs.map f).foldlM step' t) := by
  induction xs generalizing s t with
  | nil => exact .ok hst
  | cons x xs ih =>
    rw [List.map_cons, List.foldlM_cons, List.foldlM_cons]
    exact (hstep x List.mem_cons_self s t hst).bind fun s' t' hst' =>
      ih (fun y hy => hstep y (List.mem_cons_of_mem x hy)) hst'

/-- The same for loops that collect results. -/
theorem mapM {f : α → β} {g : α → Except ε γ} {g' : β → Except ε δ} {xs : List α}
    (h : ∀ x ∈ xs, SameOutcome S (g x) (g' (f x))) :
    SameOutcome (List.Forall₂ S) (xs.mapM g) ((xs.map f).mapM g') := by
  induction xs with
  | nil => exact .ok .nil
  | cons x xs ih =>
    rw [List.map_cons, List.mapM_cons, List.mapM_cons]
    refine (h x List.mem_cons_self).bind fun c d hcd => ?_
    refine (ih fun y hy => h y (List.mem_cons_of_mem x hy)).bind fun cs ds hrest => ?_
    exact .ok (.cons hcd hrest)

/-- A loop that builds comes to the same outcome as a loop of checks, if each step does to the same
as its check, as long as the invariant holds. -/
theorem foldlM_forM {I : σ → Prop} {step : σ → α → Except ε σ} {f : α → β}
    {check : β → Except ε PUnit} {xs : List α}
    (hstep : ∀ x ∈ xs, ∀ s, I s → SameOutcome (fun after _ => I after) (step s x) (check (f x)))
    {s : σ} (hs : I s) :
    SameOutcome (fun after _ => I after) (xs.foldlM step s) (forM (xs.map f) check) := by
  -- the loop that builds carries a state and the loop that checks does not, so only the invariant
  -- of the state is kept
  induction xs generalizing s with
  | nil => exact .ok hs
  | cons x xs ih =>
    rw [List.foldlM_cons, List.map_cons, List.forM_cons]
    refine (hstep x List.mem_cons_self s hs).bind fun after _ hafter => ?_
    exact ih (fun y hy => hstep y (List.mem_cons_of_mem x hy)) hafter

end SameOutcome

/-! ## Storing what was converted -/

/-- An element is stored when it was converted and pushed; the index is in the errors only. -/
theorem TypedArray.store_eq_ok_iff {out after : TypedArray} {index : Nat}
    {converted : Except Error Value} :
    out.store index converted = .ok after ↔ ∃ v, converted = .ok v ∧ out.push v = .ok after := by
  rw [store, mapError_eq_ok_iff, bind_eq_ok_iff]

theorem TypedMap.store_eq_ok_iff {out after : TypedMap} {key : String}
    {converted : Except Error Value} :
    out.store key converted = .ok after ↔ ∃ v, converted = .ok v ∧ out.put key v = .ok after := by
  rw [store, mapError_eq_ok_iff, bind_eq_ok_iff]

/-- The labelled loop is a plain one over the values with their indices. -/
theorem TypedArray.collectLabelled_eq_foldlM (convert : Value → Except Error Value) (index : Nat)
    (vs : List Value) (out : TypedArray) :
    collectLabelled convert index vs out =
      (vs.zipIdx index).foldlM (fun out p => out.store p.2 (convert p.1)) out := by
  induction vs generalizing index out with
  | nil => rfl
  | cons v rest ih =>
    rw [collectLabelled, List.zipIdx_cons, List.foldlM_cons]
    exact bind_congr fun after => ih (index + 1) after

/-- The plain loop is one over the values with their indices, too. -/
theorem TypedArray.collect_eq_foldlM (convert : Value → Except Error Value) (vs : List Value)
    (out : TypedArray) :
    collect convert vs out =
      vs.zipIdx.foldlM (fun out p => convert p.1 >>= out.push) out := by
  have hvalues : vs.zipIdx.map Prod.fst = vs := List.zipIdx_map_fst 0 vs
  rw [collect, ← hvalues, List.foldlM_map, hvalues]

end TypedJson
