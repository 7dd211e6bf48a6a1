import TypedJson.Proofs.Equality
import TypedJson.Proofs.KeptByCalls

/-!
# TypedJson — every value is well built

Whatever a program does with the library, it never gets hold of a container that breaks the promises
of its own type: what is inside would pass the check of a write, it is in the form that the element
type stores, and the storage of an array can take all that the array admits. The one thing that the
program has to see to is that the defaults of its record types fit their fields.

* **`Value.WellBuilt`** — these promises, at every depth;
* **`Value.wellKept_keptByCalls`** — each call keeps them;
* **`Session.wellBuilt_of_run`** — so whole sessions do.
-/

namespace TypedJson

/-! ## What is promised -/

/-- An element is in the form in which its type is stored: an array of integers holds no byte, and
an array of bytes no integer. -/
def Ty.IsCanonical : Ty → Value → Prop
  | .int, .byte _ => False
  | .byte, .int _ => False
  | _, _ => True

/-- What an array promises of its storage and of its elements. -/
structure TypedArray.WellKept (a : TypedArray) : Prop where
  fits : a.storage.Fits a.elementType
  admitted : ∀ v ∈ a.toList, a.elementType.admits v = true
  canonical : ∀ v ∈ a.toList, a.elementType.IsCanonical v

namespace Value

/-- What a container promises, whatever the containers inside it do. -/
def WellKept : Value → Prop
  | .array a => a.WellKept
  | .map m => ∀ e ∈ m.entries, m.rejection? e.1 e.2 = none
  | _ => True

/-- Every container in the value keeps its promises. -/
def WellBuilt (v : Value) : Prop := v.Everywhere WellKept

end Value

namespace Ty

/-- What is asked of a record type before it stands behind a container: field names are distinct,
and each default is admitted by the type of its field. -/
def DefaultsFit : Ty → Prop
  | .record r => Entries.Distinct r.fields ∧ ∀ f ∈ r.fields, f.2.ty.admits f.2.default = true
  | _ => True

/-- Only integers and bytes have a form of their own. -/
theorem isCanonical_normalize {t : Ty} {v : Value} (h : t.admits v = true) :
    t.IsCanonical (t.normalize v) := by
  cases t with
  | scalar k =>
    obtain ⟨s, rfl, hs⟩ := exists_scalar_of_admits h
    have hkind : (s.normalize k).kind = k := Scalar.kind_normalize hs
    show Ty.IsCanonical (.scalar k) (.scalar (s.normalize k))
    cases hnormal : s.normalize k <;> rw [hnormal] at hkind <;> cases hkind <;> trivial
  | _ => trivial

/-! ## Freezing -/

/-- Freezing is not seen by the checks. -/
theorem admits_freeze (t : Ty) (v : Value) : t.admits v.freeze = t.admits v := by
  induction t with
  | union members nullable ih =>
    -- a union asks its members; all other types look at the type of the value, and freezing leaves
    -- that
    rw [Bool.eq_iff_iff, admits_union_iff, admits_union_iff]
    constructor
    · rintro ⟨t, ht, h⟩
      exact ⟨t, ht, (ih t ht).symm.trans h⟩
    · rintro ⟨t, ht, h⟩
      exact ⟨t, ht, (ih t ht).trans h⟩
  | _ =>
    cases v with
    | null => rfl
    | scalar s => rfl
    | array a =>
      rw [Value.freeze, TypedArray.freeze_eq]
      rfl
    | map m =>
      rw [Value.freeze, TypedMap.freeze_eq]
      rfl

/-- Being in normal form is about scalars, and those are not frozen. -/
theorem isCanonical_freeze {t : Ty} {v : Value} (h : t.IsCanonical v) : t.IsCanonical v.freeze := by
  cases v with
  | null => exact h
  | scalar s => exact h
  | _ =>
    cases t with
    | scalar k => cases k <;> trivial
    | _ => trivial

end Ty

/-- A map accepts a frozen value where it accepts the value. -/
theorem TypedMap.rejection?_freeze {m : TypedMap} {key : String} {v : Value}
    (h : m.rejection? key v = none) : m.rejection? key v.freeze = none := by
  cases hty : m.ty with
  | json =>
    rw [rejection?_json hty, Ty.admits_freeze]
    exact (rejection?_json hty).mp h
  | map constraint =>
    cases constraint with
    | none => exact rejection?_openMap hty
    | some t =>
      rw [rejection?_mapOf hty, Ty.admits_freeze]
      exact (rejection?_mapOf hty).mp h
  | record r =>
    obtain ⟨t, ht, hadmits⟩ := (rejection?_record hty).mp h
    exact (rejection?_record hty).mpr ⟨t, ht, (Ty.admits_freeze t v).trans hadmits⟩
  | _ => simp [rejection?, hty]

/-! ## Every call keeps the promises -/

/-- **Each way to make or to change a container keeps its promises.** -/
theorem Value.wellKept_keptByCalls : KeptByCalls WellKept Ty.DefaultsFit where
  null := trivial
  scalar _ := trivial
  empty t :=
    { fits := TypedArray.fits_empty t
      admitted := by simp
      canonical := by simp }
  ofAny vs :=
    { fits := trivial
      admitted := fun v _ => rfl
      canonical := fun v _ => trivial }
  set ha h := by
    obtain ⟨-, -, -, hadmits, htype, -, htoList⟩ := TypedArray.set_eq_ok h
    refine ⟨TypedArray.fits_of_set ha.fits h, fun v hv => ?_, fun v hv => ?_⟩ <;>
      rw [htoList] at hv <;> rw [htype]
    · rcases mem_writeAt hv with hold | rfl
      · exact ha.admitted v hold
      · exact Ty.admits_normalize hadmits
    · rcases mem_writeAt hv with hold | rfl
      · exact ha.canonical v hold
      · exact Ty.isCanonical_normalize hadmits
  emptyMap t e he := nomatch he
  put hm h e he := by
    obtain ⟨-, haccepted, rfl⟩ := TypedMap.put_eq_ok_iff.mp h
    rcases Entries.mem_insert he with hold | rfl
    · exact hm e hold
    · exact haccepted
  emptyBoxed t :=
    { fits := trivial
      admitted := by simp
      canonical := by simp }
  ofJson vs hvs :=
    { fits := trivial
      admitted := hvs
      canonical := fun v _ => trivial }
  copied {a k} ha hk :=
    { fits := trivial
      admitted := fun v hv => by
        -- what an array of scalars holds is scalars, and these are JSON
        obtain ⟨s, rfl, -⟩ := Ty.exists_scalar_of_admits (hk ▸ ha.admitted v hv)
        rfl
      canonical := fun v _ => trivial }
  object entries hentries e he := (TypedMap.rejection?_json rfl).mpr (hentries e he)
  zeroRecord r hr e he := by
    obtain ⟨hdistinct, hdefaults⟩ := hr
    obtain ⟨f, hf, rfl⟩ := List.mem_map.mp he
    have hfield : r.field? f.1 = some f.2 := hdistinct.lookup_eq_some hf
    have htype : r.typeForKey? f.1 = some f.2.ty := by rw [RecordTy.typeForKey?, hfield]
    exact (TypedMap.rejection?_record rfl).mpr ⟨f.2.ty, htype, hdefaults f hf⟩
  remove hm h e he := by
    obtain ⟨-, rfl⟩ := TypedMap.remove_eq_ok_iff.mp h
    exact hm e (Entries.mem_of_mem_erase he)
  freezeArray {a} ha := by
    refine ⟨?_, fun v hv => ?_, fun v hv => ?_⟩
    · rw [TypedArray.freeze_eq]
      exact Storage.fits_freeze ha.fits
    · rw [TypedArray.toList_freeze] at hv
      obtain ⟨w, hw, rfl⟩ := List.mem_map.mp hv
      rw [TypedArray.freeze_eq, Ty.admits_freeze]
      exact ha.admitted w hw
    · rw [TypedArray.toList_freeze] at hv
      obtain ⟨w, hw, rfl⟩ := List.mem_map.mp hv
      rw [TypedArray.freeze_eq]
      exact Ty.isCanonical_freeze (ha.canonical w hw)
  freezeMap {m} hm e he := by
    rw [TypedMap.freeze_eq] at he ⊢
    obtain ⟨entry, hentry, rfl⟩ := List.mem_map.mp he
    exact TypedMap.rejection?_freeze (hm entry hentry)

/-! ## Sessions -/

theorem Part.Inside.ofTy {s t : Ty} (h : s.Inside t) : Part.Inside (.ty s) (.ty t) := by
  induction h with
  | self => exact .self _
  | member ht _ ih => exact .member ht ih
  | element _ ih => exact .element ih
  | constraint _ ih => exact .constraint ih
  | field hf _ ih => exact .field hf ih
  | rest hr _ ih => exact .rest hr ih

/-- The parts of a type are the types that it is made of, short of those in its defaults. -/
theorem Ty.passable_of_defaults {t : Ty} (hkeyed : t.Keyed)
    (hdefaults : t.FieldsSatisfy fun f => f.default.WellBuilt ∧ f.ty.admits f.default = true) :
    t.Passable Value.WellKept DefaultsFit where
  parts s hs := by
    have hfields := hdefaults s hs
    cases s with
    | record r => exact ⟨hkeyed _ (.ofTy hs), fun f hf => (hfields f hf).2⟩
    | _ => trivial
  defaults s hs := by
    have hfields := hdefaults s hs
    cases s with
    | record r => exact fun f hf => (hfields f hf).1
    | _ => trivial

/-- **Whatever a session gets hold of is well built**, after every one of its calls: all that its
slots hold and all that was answered. So an array never turns a value away that its element type
admits. -/
theorem Session.wellBuilt_of_run {calls : List Call}
    (htypes : ∀ c ∈ calls, ∀ t ∈ c.types, t.Keyed ∧
      t.FieldsSatisfy fun f => f.default.WellBuilt ∧ f.ty.admits f.default = true)
    {start : Session} (hstart : ∀ v ∈ start, v.WellBuilt) {done : List Call}
    (hdone : done <+: calls) :
    (∀ v ∈ (run done start).2, v.WellBuilt) ∧
    (∀ vs, .ok (.values vs) ∈ (run done start).1 → ∀ v ∈ vs, v.WellBuilt) ∧
    ∀ v ∈ (run done start).2, ∀ a : TypedArray, (Value.array a).Inside v →
      ∀ (index : Nat) (x : Value), a.elementType.admits x = true →
        ∃ after, a.storage.write? index (a.elementType.normalize x) = some after := by
  -- only the types that the calls bring in are assumed to have fitting defaults
  have hpassable : ∀ c ∈ done, ∀ t ∈ c.types, t.Passable Value.WellKept Ty.DefaultsFit := by
    intro c hc t ht
    obtain ⟨hkeyed, hdefaults⟩ := htypes c (hdone.subset hc) t ht
    exact Ty.passable_of_defaults hkeyed hdefaults
  obtain ⟨hanswers, hslots⟩ := Value.wellKept_keptByCalls.run hpassable hstart
  refine ⟨hslots, fun vs hvs => hanswers _ hvs, fun v hv a ha index x hx => ?_⟩
  have hkept : a.WellKept := hslots v hv _ ha
  -- a storage that fits takes what is admitted, so the arm of a write that should not happen never
  -- does
  obtain ⟨after, hwrite, -⟩ := Storage.write?_of_admits hkept.fits hx index
  exact ⟨after, hwrite⟩

/-- A record with an array as a default that was filled past the checks. -/
def RecordTy.tally : RecordTy where
  name := "Tally"
  fields := [("counts", ⟨.array .int, .array (.ofBoxed .int [.int 1])⟩)]
  rest := none

/-- A session that appends a byte to the array in a zero record and converts the record to JSON. -/
def Session.tally : List Call :=
  [.fresh (.zero (.record .tally)), .fresh (.scalar (.byte 2)), .read (.entry "counts") 0,
    .write .push 2 1, .write (.put "counts") 0 2, .read (.encodeRecord 2) 0]

theorem Session.wellBuilt_of_run_tally :
    (run tally []).2[4]? =
      some (.map ⟨.json, [("counts", .array (.ofBoxed .json [.int 1, .int 2]))], false⟩) ∧
      ∀ v ∈ (run tally []).2, v.WellBuilt := by
  have htypes : ∀ c ∈ tally, ∀ t ∈ c.types, t.Keyed ∧
      t.FieldsSatisfy fun f => f.default.WellBuilt ∧ f.ty.admits f.default = true := by
    have harray : (TypedArray.ofBoxed .int [.int 1]).WellKept :=
      ⟨trivial, List.forall_mem_singleton.mpr rfl, List.forall_mem_singleton.mpr trivial⟩
    have hadmits : (Ty.array .int).admits (.array (.ofBoxed .int [.int 1])) = true := rfl
    simp [tally, Call.types, Fresh.types, Reading.types, Write.types, RecordTy.tally, Ty.Keyed,
      Part.HasDistinctKeys, Entries.Distinct, Entries.keys, Ty.FieldsSatisfy, Value.WellBuilt,
      Value.WellKept, harray, hadmits]
  exact ⟨rfl, (wellBuilt_of_run htypes (List.forall_mem_nil _) List.prefix_rfl).1⟩

end TypedJson
