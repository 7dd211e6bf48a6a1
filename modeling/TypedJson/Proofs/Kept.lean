import TypedJson.Proofs.Outcomes
import TypedJson.Proofs.Parts

/-!
# TypedJson — what conversion keeps

A conversion builds its result by checked writes into fresh containers and takes everything else
over from its source or from the defaults of the target. So a property of containers that fresh ones
have and that writes keep holds throughout a result, if it holds throughout the source and the
defaults:

* **`KeptByWrites`** — such a property;
* **`KeptByWrites.decode`** — it holds everywhere in what a conversion returns.

Nothing here depends on what the property is.
-/

namespace TypedJson

/-! ## The property -/

/-- The predicate holds of all fields of record types in the type. -/
def Ty.FieldsSatisfy (Q : Field → Prop) (t : Ty) : Prop :=
  t.Everywhere fun s => match s with
    | .record r => ∀ f ∈ r.fields, Q f.2
    | _ => True

/-- A property of values that scalars and fresh containers have and that no write takes away. -/
structure KeptByWrites (P : Value → Prop) : Prop where
  null : P .null
  scalar : ∀ s, P (.scalar s)
  empty : ∀ t, P (.array (.empty t))
  ofAny : ∀ vs, P (.array (.ofBoxed .any vs))
  set : ∀ {a after : TypedArray} {index : Int} {v : Value}, P (.array a) →
    a.set index v = .ok after → P (.array after)
  emptyMap : ∀ t, P (.map (.empty t))
  put : ∀ {m after : TypedMap} {key : String} {v : Value}, P (.map m) →
    m.put key v = .ok after → P (.map after)

namespace KeptByWrites

variable {P : Value → Prop} (hP : KeptByWrites P)

include hP

theorem everywhere_null : Value.null.Everywhere P := Value.everywhere_null.mpr hP.null

theorem everywhere_scalar (s : Scalar) : (Value.scalar s).Everywhere P :=
  Value.everywhere_scalar.mpr (hP.scalar s)

/-- A fresh array holds no elements, so the property is asked of the array alone. -/
theorem everywhere_empty (t : Ty) : (Value.array (.empty t)).Everywhere P :=
  Value.everywhere_array.mpr ⟨hP.empty t, by simp⟩

theorem everywhere_emptyMap (t : Ty) : (Value.map (.empty t)).Everywhere P :=
  Value.everywhere_map.mpr ⟨hP.emptyMap t, fun _ he => nomatch he⟩

/-- Normalizing gives the value back or a scalar, and all scalars have the property. -/
theorem everywhere_normalize {t : Ty} {v : Value} (hv : v.Everywhere P) :
    (t.normalize v).Everywhere P := by
  unfold Ty.normalize
  split
  · exact hP.everywhere_scalar _
  · exact hv

/-- A write at an index keeps the property everywhere: an element of the result was there before or
is what was written. -/
theorem everywhere_set {a after : TypedArray} {index : Int} {v : Value}
    (ha : (Value.array a).Everywhere P) (hv : v.Everywhere P)
    (h : a.set index v = .ok after) : (Value.array after).Everywhere P := by
  obtain ⟨hself, hitems⟩ := Value.everywhere_array.mp ha
  obtain ⟨-, -, -, -, -, -, htoList⟩ := TypedArray.set_eq_ok h
  refine Value.everywhere_array.mpr ⟨hP.set hself h, fun w hw => ?_⟩
  rw [htoList] at hw
  -- what is written is normalized first
  rcases mem_writeAt hw with hold | rfl
  · exact hitems w hold
  · exact hP.everywhere_normalize hv

/-- A put keeps the property everywhere: an entry of the result was there before or is the one
written. -/
theorem everywhere_put {m after : TypedMap} {key : String} {v : Value}
    (hm : (Value.map m).Everywhere P) (hv : v.Everywhere P)
    (h : m.put key v = .ok after) : (Value.map after).Everywhere P := by
  obtain ⟨hself, hentries⟩ := Value.everywhere_map.mp hm
  refine Value.everywhere_map.mpr ⟨hP.put hself h, fun e he => ?_⟩
  obtain ⟨-, -, rfl⟩ := TypedMap.put_eq_ok_iff.mp h
  rcases Entries.mem_insert he with hold | rfl
  · exact hentries e hold
  · exact hv

/-- Pushes one after the other keep the property; the array built so far is the loop state. -/
theorem everywhere_pushAll {a after : TypedArray} {vs : List Value}
    (ha : (Value.array a).Everywhere P) (hvs : ∀ v ∈ vs, v.Everywhere P)
    (h : a.pushAll vs = .ok after) : (Value.array after).Everywhere P :=
  foldlM_invariant (I := fun out => (Value.array out).Everywhere P)
    (fun v hv _ _ hout hpush => hP.everywhere_set hout (hvs v hv) hpush) ha h

/-! ## Building containers -/

/-- The loop that converts elements and pushes them builds an array with the property. -/
theorem everywhere_collect {convert : Value → Except Error Value} {vs : List Value}
    {out after : TypedArray} (hout : (Value.array out).Everywhere P)
    (hconvert : ∀ v ∈ vs, ∀ w, convert v = .ok w → w.Everywhere P)
    (h : TypedArray.collect convert vs out = .ok after) : (Value.array after).Everywhere P := by
  refine foldlM_invariant (I := fun out => (Value.array out).Everywhere P) ?_ hout h
  intro v hv s s' hs hstep
  obtain ⟨w, hw, hpush⟩ := bind_eq_ok_iff.mp hstep
  exact hP.everywhere_set hs (hconvert v hv w hw) hpush

/-- The same loop with the index in its errors: only the errors differ. -/
theorem everywhere_collectLabelled {convert : Value → Except Error Value} {index : Nat}
    {vs : List Value} {out after : TypedArray} (hout : (Value.array out).Everywhere P)
    (hconvert : ∀ v ∈ vs, ∀ w, convert v = .ok w → w.Everywhere P)
    (h : TypedArray.collectLabelled convert index vs out = .ok after) :
    (Value.array after).Everywhere P := by
  rw [TypedArray.collectLabelled_eq_foldlM] at h
  refine foldlM_invariant (I := fun out => (Value.array out).Everywhere P) ?_ hout h
  intro p hp s s' hs hstep
  obtain ⟨w, hw, hpush⟩ := TypedArray.store_eq_ok_iff.mp hstep
  have hmem : p.1 ∈ vs := (List.mem_zipIdx hp).2.2 ▸ List.getElem_mem _
  exact hP.everywhere_set hs (hconvert p.1 hmem w hw) hpush

theorem everywhere_collectEntries {convert : Value → Except Error Value}
    {entries : List (String × Value)} {out after : TypedMap}
    (hout : (Value.map out).Everywhere P)
    (hconvert : ∀ e ∈ entries, ∀ w, convert e.2 = .ok w → w.Everywhere P)
    (h : TypedMap.collect convert entries out = .ok after) : (Value.map after).Everywhere P := by
  refine foldlM_invariant (I := fun out => (Value.map out).Everywhere P) ?_ hout h
  intro e he s s' hs hstep
  obtain ⟨w, hw, hput⟩ := TypedMap.store_eq_ok_iff.mp hstep
  exact hP.everywhere_put hs (hconvert e he w hw) hput

/-! ## Conversion -/

/-- An array built by any conversion of elements that keeps the property has it throughout. -/
theorem decodeWith_array {elementType : Ty} {convert : Depth → Value → Except Error Value}
    {depth : Depth} {v : Value} {out : TypedArray}
    (hconvert : ∀ inner x y, x.Everywhere P → convert inner x = .ok y → y.Everywhere P)
    (hv : v.Everywhere P) (h : TypedArray.decodeWith elementType convert depth v = .ok out) :
    (Value.array out).Everywhere P := by
  obtain ⟨source, inner, rfl, -, hcases⟩ := TypedArray.decodeWith_eq_ok h
  obtain ⟨-, hitems⟩ := Value.everywhere_array.mp hv
  rcases hcases with hcollect | ⟨-, rfl⟩ | hlabelled
  · exact hP.everywhere_collect (hP.everywhere_empty _)
      (fun x hx y => hconvert inner x y (hitems x hx)) hcollect
  · -- the elements of an array of `any` are copied unchecked
    exact Value.everywhere_array.mpr ⟨hP.ofAny _, hitems⟩
  · exact hP.everywhere_collectLabelled (hP.everywhere_empty _)
      (fun x hx y => hconvert inner x y (hitems x hx)) hlabelled

theorem decodeWith_map {constraint : Option Ty} {convert : Depth → Value → Except Error Value}
    {depth : Depth} {v : Value} {out : TypedMap}
    (hconvert : ∀ inner x y, x.Everywhere P → convert inner x = .ok y → y.Everywhere P)
    (hv : v.Everywhere P) (h : TypedMap.decodeWith constraint convert depth v = .ok out) :
    (Value.map out).Everywhere P := by
  obtain ⟨source, inner, rfl, -, hcollect⟩ := TypedMap.decodeWith_eq_ok h
  obtain ⟨-, hentries⟩ := Value.everywhere_map.mp hv
  exact hP.everywhere_collectEntries (hP.everywhere_emptyMap _)
    (fun e he y => hconvert inner e.2 y (hentries e he)) hcollect

/-- A record is built from converted fields and from defaults, so the defaults have to have the
property too. -/
theorem decode_record {r : RecordTy} {depth : Depth} {v : Value} {out : TypedMap}
    (hdefaults : ∀ f ∈ r.fields, f.2.default.Everywhere P)
    (hconvert : ∀ f ∈ r.fields, ∀ inner x y, x.Everywhere P → f.2.ty.decode inner x = .ok y →
      y.Everywhere P)
    (hv : v.Everywhere P) (h : r.decode depth v = .ok out) : (Value.map out).Everywhere P := by
  obtain ⟨source, inner, rfl, -, hfold⟩ := RecordTy.decode_eq_ok h
  obtain ⟨-, hentries⟩ := Value.everywhere_map.mp hv
  refine foldlM_invariant (I := fun out => (Value.map out).Everywhere P) ?_
    (hP.everywhere_emptyMap _) hfold
  intro f hf s s' hs hstep
  obtain ⟨w, hw, hput⟩ := TypedMap.store_eq_ok_iff.mp hstep
  refine hP.everywhere_put hs ?_ hput
  cases hsource : source.get? f.1 with
  | none =>
    -- an absent field is its default, which nothing but the hypothesis speaks about
    rw [hsource, Field.decode_none] at hw
    cases hw
    exact hdefaults f hf
  | some x =>
    rw [hsource, Field.decode_some] at hw
    exact hconvert f hf inner x w (hentries _ (Entries.mem_of_lookup hsource)) hw

/-- **What writes keep, conversion keeps.** -/
theorem decode {t : Ty} (hdefaults : t.FieldsSatisfy fun f => f.default.Everywhere P)
    {depth : Depth} {v r : Value} (hv : v.Everywhere P) (h : t.decode depth v = .ok r) :
    r.Everywhere P := by
  induction t generalizing depth v r with
  | scalar k =>
    obtain ⟨s, rfl, -⟩ := ScalarKind.decode_eq_ok h
    exact hP.everywhere_scalar s
  | json =>
    rw [Ty.decode] at h
    split at h <;> cases h
    exact hv
  | any =>
    cases h
    exact hv
  | null =>
    rw [Ty.decode] at h
    split at h <;> cases h
    exact hP.everywhere_null
  | union members nullable ih =>
    rcases Ty.decode_union_eq_ok h with ⟨-, rfl⟩ | ⟨only, honly, h⟩
    · exact hP.everywhere_null
    · exact ih only honly (hdefaults.member honly) hv h
  | array element ih =>
    obtain ⟨out, hout, rfl⟩ := map_eq_ok_iff.mp h
    exact hP.decodeWith_array (fun _ _ _ hx hy => ih hdefaults.element hx hy) hv hout
  | openMap =>
    obtain ⟨out, hout, rfl⟩ := map_eq_ok_iff.mp h
    exact hP.decodeWith_map (fun _ _ _ hx hy => Except.ok.inj hy ▸ hx) hv hout
  | mapOf t ih =>
    obtain ⟨out, hout, rfl⟩ := map_eq_ok_iff.mp h
    refine hP.decodeWith_map (fun inner x y hx hy => ?_) hv hout
    -- for `any` and `json` the entries are copied
    split at hy
    · cases hy
      exact hx
    · exact ih hdefaults.constraint hx hy
  | record r ihFields _ =>
    obtain ⟨out, hout, rfl⟩ := map_eq_ok_iff.mp h
    exact hP.decode_record hdefaults.self
      (fun f hf _ _ _ hx hy => ihFields f hf (hdefaults.field hf) hx hy) hv hout

end KeptByWrites

end TypedJson
