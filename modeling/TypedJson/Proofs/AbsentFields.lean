import TypedJson.Proofs.OwnType
import TypedJson.Proofs.Zeros

/-!
# TypedJson — absent fields

A record that is converted from an object takes the defaults of the fields that the object lacks.
They are written like everything else, so each is checked against the type of its field, although no
check was made when it was declared. Nothing but these checks can fail once the fields that are
there can be converted.

* **`RecordTy.exists_decode_iff`** — a record is converted exactly if each of its fields can be
  filled;
* **`RecordTy.Filled`**, **`RecordTy.filled_of_decode`** — what it then holds;
* **`absent_fields_take_defaults`** — whether absent fields take their defaults is a question about
  these defaults alone, and for a sound record type there is no question;
* **`absent_fields_may_fail`** — a default that its own field refuses makes an object fail for want
  of a key.
-/

namespace TypedJson

namespace RecordTy

variable {r : RecordTy} {v : Value} {source out : TypedMap} {depth inner : Depth}

/-! ## Filling the fields -/

/-- **A record is converted exactly if each of its fields can be filled**: there is something to
store and the field admits it. -/
theorem exists_decode_iff (hobject : v.asObject? = some source)
    (hdistinct : Entries.Distinct r.fields) (henter : depth.enter = .ok inner) :
    (∃ out, r.decode depth v = .ok out) ↔
      ∀ f ∈ r.fields, ∃ w, f.2.decode inner (source.get? f.1) = .ok w ∧ f.2.ty.admits w = true := by
  obtain rfl := Value.eq_map_of_asObject? hobject
  constructor
  · rintro ⟨out, hout⟩ f hf
    obtain ⟨inner', henter', es, hes, -⟩ := (decode_eq_ok_iff hobject hdistinct).mp hout
    have hsame : inner' = inner := Except.ok.inj (henter'.symm.trans henter)
    obtain ⟨e, -, -, hfilled⟩ := exists_right_of_mem hes hf
    exact ⟨e.2, hsame ▸ hfilled⟩
  · intro h
    have hentry (f) (hf : f ∈ r.fields) : ∃ e : String × Value, e.1 = f.1 ∧
        f.2.decode inner (source.get? f.1) = .ok e.2 ∧ f.2.ty.admits e.2 = true := by
      obtain ⟨w, hfilled⟩ := h f hf
      exact ⟨(f.1, w), rfl, hfilled⟩
    -- the results of the fields are chosen one by one and make up the entries
    obtain ⟨es, hes⟩ := exists_forall₂ hentry
    exact ⟨_, (decode_eq_ok_iff hobject hdistinct).mpr ⟨inner, henter, es, hes, rfl⟩⟩

/-- Each declared field that the source has can be converted to its type. -/
def ConvertsPresent (r : RecordTy) (inner : Depth) (source : TypedMap) : Prop :=
  ∀ f ∈ r.fields, ∀ x, source.get? f.1 = some x → ∃ w, f.2.ty.decode inner x = .ok w

/-- The default of each declared field that the source lacks is of the type of the field. -/
def AdmitsDefaults (r : RecordTy) (source : TypedMap) : Prop :=
  ∀ f ∈ r.fields, source.get? f.1 = none → f.2.ty.admits f.2.default = true

/-- What the fields of the source are converted to is of the types of the fields. -/
def AdmitsPresent (r : RecordTy) (inner : Depth) (source : TypedMap) : Prop :=
  ∀ f ∈ r.fields, ∀ x w, source.get? f.1 = some x → f.2.ty.decode inner x = .ok w →
    f.2.ty.admits w = true

/-- Where the present fields can be converted, only the checks on what is written can fail. -/
theorem exists_decode_iff_admits (hobject : v.asObject? = some source)
    (hdistinct : Entries.Distinct r.fields) (henter : depth.enter = .ok inner)
    (hpresent : r.ConvertsPresent inner source) :
    (∃ out, r.decode depth v = .ok out) ↔
      r.AdmitsPresent inner source ∧ r.AdmitsDefaults source := by
  rw [exists_decode_iff hobject hdistinct henter]
  constructor
  · intro h
    refine ⟨fun f hf x w hx hw => ?_, fun f hf habsent => ?_⟩
    · -- a field that is there: what it converts to is known, so it is this that is admitted
      obtain ⟨w', hw', hadmits⟩ := h f hf
      rw [hx, Field.decode_some, hw] at hw'
      cases hw'
      exact hadmits
    · -- a field that is not there: the default is taken as it is and then checked
      obtain ⟨w, hw, hadmits⟩ := h f hf
      rw [habsent, Field.decode_none] at hw
      cases hw
      exact hadmits
  · rintro ⟨hadmits, hdefaults⟩ f hf
    cases hget : source.get? f.1 with
    | none => exact ⟨f.2.default, Field.decode_none _ _, hdefaults f hf hget⟩
    | some x =>
      obtain ⟨w, hw⟩ := hpresent f hf x hget
      rw [Field.decode_some]
      exact ⟨w, hw, hadmits f hf x w hget hw⟩

/-- Converted values pass their checks where conversion is sound. -/
theorem admitsPresent (hkeyed : (Ty.record r).Keyed)
    (hsound : ∀ f ∈ r.fields, source.hasKey f.1 = true → f.2.ty.FlagsFit ∧ f.2.ty.NaNFree) :
    r.AdmitsPresent inner source := by
  intro f hf x w hx hw
  have hkey : source.hasKey f.1 = true := Option.isSome_of_eq_some hx
  obtain ⟨hflags, hnan⟩ := hsound f hf hkey
  exact Ty.admits_of_decode (hkeyed.field hf) hflags hnan hw

/-! ## What a record holds -/

/-- A record as it comes out: the declared fields in their order, each with the converted value of
the source or, where that has none, with the default. -/
structure Filled (r : RecordTy) (inner : Depth) (source out : TypedMap) : Prop where
  ty : out.ty = .record r
  thawed : out.frozen = false
  keys : out.keys = Entries.keys r.fields
  present : ∀ f ∈ r.fields, ∀ x, source.get? f.1 = some x →
    ∃ w, f.2.ty.decode inner x = .ok w ∧ out.get? f.1 = some w
  absent : ∀ f ∈ r.fields, source.get? f.1 = none → out.get? f.1 = some f.2.default

/-- What a conversion gave is filled field by field, whatever it took to get there. -/
theorem filled_of_decode (hobject : v.asObject? = some source)
    (hdistinct : Entries.Distinct r.fields) (henter : depth.enter = .ok inner)
    (h : r.decode depth v = .ok out) : r.Filled inner source out := by
  obtain rfl := Value.eq_map_of_asObject? hobject
  obtain ⟨inner', henter', es, hes, rfl⟩ := (decode_eq_ok_iff hobject hdistinct).mp h
  have hsame : inner' = inner := Except.ok.inj (henter'.symm.trans henter)
  have hentries : Entries.Distinct es := hdistinct.of_forall₂ hes fun f e hfilled => hfilled.1
  -- under the key of a field stands what the field was filled with
  have hget (f) (hf : f ∈ r.fields) :
      ∃ w, f.2.decode inner (source.get? f.1) = .ok w ∧ es.lookup f.1 = some w := by
    obtain ⟨e, he, hkey, hfilled, -⟩ := exists_right_of_mem hes hf
    exact ⟨e.2, hsame ▸ hfilled, hkey ▸ hentries.lookup_eq_some he⟩
  refine ⟨rfl, rfl, Entries.keys_eq_of_forall₂ hes fun f e hfilled => hfilled.1, ?_, ?_⟩
  · intro f hf x hx
    obtain ⟨w, hw, hlookup⟩ := hget f hf
    rw [hx, Field.decode_some] at hw
    exact ⟨w, hw, hlookup⟩
  · intro f hf habsent
    obtain ⟨w, hw, hlookup⟩ := hget f hf
    rw [habsent, Field.decode_none] at hw
    cases hw
    exact hlookup

end RecordTy

/-- The unions of a sound type have fitting flags. -/
theorem Ty.IsSound.flagsFit {t : Ty} (h : t.IsSound) : t.FlagsFit := by
  refine fun s hs => ?_
  have hpart := h.parts s hs
  cases s with
  | union members nullable => exact hpart.2
  | _ => trivial

/-! ## Absent fields -/

/-- **An absent field takes its default, if its own type admits it.** Say that the declared fields
that an object has can be converted. Then the object can be converted exactly if what is written is
admitted; where the types of the present fields have fitting flags and no NaN, exactly if the
defaults of the absent fields are; and always if the record type is sound. The record holds the
converted values of the fields that are present and the defaults of those that are not. -/
theorem absent_fields_take_defaults (r : RecordTy) (hkeyed : (Ty.record r).Keyed) (v : Value)
    (source : TypedMap) (hobject : v.asObject? = some source) (limit : Nat) (hlimit : 1 ≤ limit)
    (hpresent : r.ConvertsPresent ⟨1, limit⟩ source) :
    ((∃ out, r.decode (.root limit) v = .ok out) ↔
      r.AdmitsPresent ⟨1, limit⟩ source ∧ r.AdmitsDefaults source) ∧
    ((∀ f ∈ r.fields, source.hasKey f.1 = true → f.2.ty.FlagsFit ∧ f.2.ty.NaNFree) →
      ((∃ out, r.decode (.root limit) v = .ok out) ↔ r.AdmitsDefaults source)) ∧
    ((Ty.record r).IsSound → ∃ out, r.decode (.root limit) v = .ok out) ∧
    ∀ out, r.decode (.root limit) v = .ok out → r.Filled ⟨1, limit⟩ source out := by
  have hdistinct : Entries.Distinct r.fields := hkeyed.self
  have henter : (Depth.root limit).enter = .ok ⟨1, limit⟩ := Depth.enter_eq_ok_iff.mpr ⟨hlimit, rfl⟩
  have hiff := RecordTy.exists_decode_iff_admits hobject hdistinct henter hpresent
  refine ⟨hiff, fun hsound => ?_, fun hr => ?_, fun out hout => ?_⟩
  · rw [hiff]
    exact and_iff_right (RecordTy.admitsPresent hkeyed hsound)
  · -- for sound types a zero is admitted, and so is whatever was converted
    refine hiff.mpr
      ⟨RecordTy.admitsPresent hkeyed fun f hf _ => ?_, fun f hf _ => (hr.default hf).1⟩
    exact ⟨(hr.ofField hf).flagsFit, (hr.ofField hf).nanFree⟩
  · exact RecordTy.filled_of_decode hobject hdistinct henter hout

/-- An order, with a note that is empty by default and a count whose default is no number. -/
def RecordTy.order : RecordTy :=
  ((named "Order").field "note" .string).fieldWithDefault "count" .int .null

/-- A record that is given a field and takes the default of another, and the same record where the
default taken is of the wrong type. -/
theorem absent_fields_take_defaults_order :
    (∃ out, RecordTy.order.decode (.root 1) (.map ⟨.json, [("count", .int 3)], true⟩) = .ok out ∧
      out.keys = ["note", "count"] ∧ out.get? "note" = some (.string "") ∧
      out.get? "count" = some (.int 3)) ∧
    ¬ ∃ out, RecordTy.order.decode (.root 1) (.map ⟨.json, [], false⟩) = .ok out := by
  have hkeyed : (Ty.record .order).Keyed := by
    simp [Ty.Keyed, RecordTy.order, RecordTy.named, RecordTy.field, RecordTy.fieldWithDefault,
      RecordTy.declare, Entries.insert, Field.ofTy, Ty.zero, Scalar.zero, Part.HasDistinctKeys,
      Entries.Distinct, Entries.keys]
  have hfields : RecordTy.order.fields =
      [("note", ⟨.string, .string ""⟩), ("count", ⟨.int, .null⟩)] := rfl
  have hsound (f) (hf : f ∈ RecordTy.order.fields) : f.2.ty.FlagsFit ∧ f.2.ty.NaNFree := by
    rw [hfields] at hf
    rcases List.mem_pair.mp hf with rfl | rfl
    · exact ⟨Ty.everywhere_scalar.mpr trivial, Part.everywhere_scalarTy.mpr trivial⟩
    · exact ⟨Ty.everywhere_scalar.mpr trivial, Part.everywhere_scalarTy.mpr trivial⟩
  constructor
  · -- the count is there, and the note may be absent
    let source : TypedMap := ⟨.json, [("count", .int 3)], true⟩
    have hpresent : RecordTy.order.ConvertsPresent ⟨1, 1⟩ source := by
      intro f hf x hx
      rw [hfields] at hf
      rcases List.mem_pair.mp hf with rfl | rfl <;> cases hx
      exact ⟨.int 3, rfl⟩
    obtain ⟨-, hiff, -, hfilled⟩ :=
      absent_fields_take_defaults .order hkeyed (.map source) source rfl 1
      (Nat.le_refl 1) hpresent
    have hdefaults : RecordTy.order.AdmitsDefaults source := by
      intro f hf habsent
      rw [hfields] at hf
      rcases List.mem_pair.mp hf with rfl | rfl
      · rfl
      · cases habsent
    obtain ⟨out, hout⟩ := (hiff fun f hf _ => hsound f hf).mpr hdefaults
    have hout' := hfilled out hout
    obtain ⟨w, hw, hcount⟩ := hout'.present ("count", ⟨.int, .null⟩)
      (List.mem_cons_of_mem _ List.mem_cons_self) (.int 3) rfl
    cases hw
    exact ⟨out, hout, hout'.keys, hout'.absent _ List.mem_cons_self rfl, hcount⟩
  · -- the count is absent
    let source : TypedMap := ⟨.json, [], false⟩
    have hpresent : RecordTy.order.ConvertsPresent ⟨1, 1⟩ source := by
      intro f _ x hx
      cases hx
    obtain ⟨-, hiff, -, -⟩ := absent_fields_take_defaults .order hkeyed (.map source) source rfl 1
      (Nat.le_refl 1) hpresent
    rw [hiff fun f hf _ => hsound f hf]
    intro hdefaults
    have hcount :=
      hdefaults ("count", ⟨.int, .null⟩) (List.mem_cons_of_mem _ List.mem_cons_self) rfl
    exact absurd hcount Bool.false_ne_true

/-- A station has a gauge, and the zero of its type is the default. If the level of a gauge is a NaN
by default, the field refuses this zero, and an object without a gauge cannot be converted. -/
theorem absent_fields_may_fail :
    ¬ ∀ (r : RecordTy) (source : TypedMap) (limit : Nat), (Ty.record r).Keyed →
      (Value.map source).asObject? = some source → 1 ≤ limit →
      r.ConvertsPresent ⟨1, limit⟩ source →
        ∃ out, r.decode (.root limit) (.map source) = .ok out := by
  intro h
  -- the zero of a record with a NaN default is not admitted by that record
  let station : RecordTy := (RecordTy.named "Station").field "gauge" (.record (.gauge .nan))
  have hkeyed : (Ty.record station).Keyed := by
    have hgauge := RecordTy.keyed_gauge .nan
    refine Part.everywhere_record.mpr ⟨List.nodup_cons.mpr ⟨nofun, .nil⟩, fun f hf => ?_, nofun⟩
    obtain rfl := List.mem_singleton.mp hf
    exact ⟨hgauge, hgauge.zero⟩
  have hpresent : station.ConvertsPresent ⟨1, 1⟩ ⟨.json, [], false⟩ := by
    intro f _ x hx
    cases hx
  obtain ⟨out, hout⟩ := h station ⟨.json, [], false⟩ 1 hkeyed rfl (Nat.le_refl 1) hpresent
  have hrefused : (station.decode (.root 1) (.map ⟨.json, [], false⟩)).isOk = false := by
    decide
  rw [hout] at hrefused
  cases hrefused

end TypedJson
