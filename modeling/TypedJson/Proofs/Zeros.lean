import TypedJson.Proofs.Contents
import TypedJson.Proofs.Standard

/-!
# TypedJson — zeros are values of their types

The zero of a record holds the defaults of the fields, and nothing checks them when they are put
there. So a zero is as good as the defaults that were declared, and those that were not declared are
zeros themselves.

* **`Ty.IsSound`** — what is asked of the unions and of the declared defaults in a type;
* **`Ty.IsSound.declare`**, **`Ty.IsSound.unionOf`** and the lemmas beside them — types are sound
  that are built from sound types;
* **`Ty.IsSound.zero`** — the zero of a sound type is a value of it and conforms;
* **`zeros_areSound`** — besides, a record that is converted from an object without any of its
  fields is the zero, although there every default is checked.
-/

namespace TypedJson

namespace Ty

/-! ## Sound types -/

/-- One part of a sound type. A union has members and is nullable exactly if null is one of them.
The default of a field is the zero of its type, or it is a value of that type and conforms. -/
def IsSoundPart : Ty → Prop
  | .union members nullable => members ≠ [] ∧ nullable = members.any isNull
  | .record r => ∀ f ∈ r.fields, f.2.default = f.2.ty.zero ∨
      f.2.ty.admits f.2.default = true ∧ f.2.default.Conforms
  | _ => True

/-- A type whose unions and defaults are as they should be, and that equals itself. -/
structure IsSound (t : Ty) : Prop where
  parts : t.Everywhere IsSoundPart
  keyed : t.Keyed
  nanFree : t.NaNFree

theorem IsSound.member {members : List Ty} {nullable : Bool}
    (h : (Ty.union members nullable).IsSound) {t : Ty} (ht : t ∈ members) : t.IsSound :=
  ⟨h.parts.member ht, h.keyed.member ht, h.nanFree.member ht⟩

theorem IsSound.ofField {r : RecordTy} (h : (Ty.record r).IsSound) {f : String × Field}
    (hf : f ∈ r.fields) : f.2.ty.IsSound :=
  ⟨h.parts.field hf, h.keyed.field hf, h.nanFree.field hf⟩

theorem IsSound.numEq_self {t : Ty} (h : t.IsSound) : t.numEq t = true :=
  Ty.numEq_self h.keyed h.nanFree

/-! ## Zeros -/

/-- **The zero of a sound type is a value of that type, and it conforms.** The induction is over the
type: a default that was not declared is the zero of a smaller type. -/
theorem IsSound.zero {t : Ty} (h : t.IsSound) : t.admits t.zero = true ∧ t.zero.Conforms := by
  have hnull : Value.null.Conforms := Value.everywhere_null.mpr trivial
  induction t with
  | scalar k => exact ⟨by cases k <;> rfl, Value.everywhere_scalar.mpr trivial⟩
  | json => exact ⟨rfl, hnull⟩
  | any => exact ⟨rfl, hnull⟩
  | null => exact ⟨rfl, hnull⟩
  | union members nullable ih =>
    obtain ⟨hne, hflag⟩ := h.parts.self
    rw [Ty.zero, admits_union_iff]
    split
    · rename_i hnullable
      -- the flag is set, so there is a member behind it
      rw [hnullable] at hflag
      obtain ⟨t, ht, htnull⟩ := List.any_eq_true.mp hflag.symm
      refine ⟨⟨t, ht, ?_⟩, hnull⟩
      cases t with
      | null => rfl
      | _ => cases htnull
    · obtain ⟨first, rest, rfl⟩ := List.exists_cons_of_ne_nil hne
      have hmem : first ∈ first :: rest := List.mem_cons_self
      obtain ⟨hadmits, hconforms⟩ := ih first hmem (h.member hmem)
      exact ⟨⟨first, hmem, hadmits⟩, hconforms⟩
  | array element _ =>
    refine ⟨admits_array_self (Ty.numEq_self h.keyed.element h.nanFree.element) rfl, ?_⟩
    have hempty (v : Value) : v ∉ (TypedArray.empty element).toList := by simp
    exact Value.everywhere_array.mpr
      ⟨fun v hv => absurd hv (hempty v), fun v hv => absurd hv (hempty v)⟩
  | openMap =>
    exact ⟨rfl, Value.everywhere_map.mpr ⟨List.forall_mem_nil _, List.forall_mem_nil _⟩⟩
  | mapOf t _ =>
    refine ⟨admits_map_self h.numEq_self rfl rfl, ?_⟩
    exact Value.everywhere_map.mpr ⟨List.forall_mem_nil _, List.forall_mem_nil _⟩
  | record r ih _ =>
    have hdistinct : Entries.Distinct r.fields := h.keyed.self
    have hdefault (f) (hf : f ∈ r.fields) :
        f.2.ty.admits f.2.default = true ∧ f.2.default.Conforms := by
      rcases h.parts.self f hf with hzero | hvalue
      · rw [hzero]
        exact ih f hf (h.ofField hf)
      · exact hvalue
    refine ⟨admits_map_self h.numEq_self rfl rfl, ?_⟩
    refine Value.everywhere_map.mpr ⟨fun e he => ?_, fun e he => ?_⟩
    · obtain ⟨f, hf, rfl⟩ := List.mem_map.mp he
      exact (TypedMap.rejection?_record rfl).mpr
        ⟨f.2.ty, RecordTy.typeForKey?_of_mem hdistinct hf, (hdefault f hf).1⟩
    · obtain ⟨f, hf, rfl⟩ := List.mem_map.mp he
      exact (hdefault f hf).2

/-- The defaults of a sound record are values of the types of their fields, and they conform. -/
theorem IsSound.default {r : RecordTy} (h : (Ty.record r).IsSound) {f : String × Field}
    (hf : f ∈ r.fields) : f.2.ty.admits f.2.default = true ∧ f.2.default.Conforms := by
  rcases h.parts.self f hf with hzero | hvalue
  · rw [hzero]
    exact (h.ofField hf).zero
  · exact hvalue

/-! ## Building sound types -/

namespace IsSound

theorem scalar (k : ScalarKind) : (Ty.scalar k).IsSound where
  parts := everywhere_scalar.mpr trivial
  keyed := Part.everywhere_scalarTy.mpr trivial
  nanFree := Part.everywhere_scalarTy.mpr trivial

theorem null : Ty.null.IsSound where
  parts := everywhere_null.mpr trivial
  keyed := Part.everywhere_nullTy.mpr trivial
  nanFree := Part.everywhere_nullTy.mpr trivial

theorem json : Ty.json.IsSound where
  parts := everywhere_json.mpr trivial
  keyed := Part.everywhere_json.mpr trivial
  nanFree := Part.everywhere_json.mpr trivial

theorem array {element : Ty} (h : element.IsSound) : (Ty.array element).IsSound where
  parts := everywhere_array.mpr ⟨trivial, h.parts⟩
  keyed := Part.everywhere_arrayTy.mpr ⟨trivial, h.keyed⟩
  nanFree := Part.everywhere_arrayTy.mpr ⟨trivial, h.nanFree⟩

theorem mapOf {t : Ty} (h : t.IsSound) : (Ty.mapOf t).IsSound where
  parts := everywhere_mapOf.mpr ⟨trivial, h.parts⟩
  keyed := Part.everywhere_mapOf.mpr ⟨trivial, h.keyed⟩
  nanFree := Part.everywhere_mapOf.mpr ⟨trivial, h.nanFree⟩

/-- The flag of a union is set from its members, so all that is asked is that there are some. -/
theorem unionOf {members : List Ty} (hne : members ≠ []) (h : ∀ t ∈ members, t.IsSound) :
    (unionOf members).IsSound where
  parts := everywhere_union.mpr ⟨⟨hne, rfl⟩, fun t ht => (h t ht).parts⟩
  keyed := Part.everywhere_union.mpr ⟨trivial, fun t ht => (h t ht).keyed⟩
  nanFree := Part.everywhere_union.mpr ⟨trivial, fun t ht => (h t ht).nanFree⟩

/-- A record without fields is sound. -/
theorem named (name : String) : (Ty.record (.named name)).IsSound where
  parts := everywhere_record.mpr ⟨List.forall_mem_nil _, List.forall_mem_nil _, nofun⟩
  keyed := Part.everywhere_record.mpr ⟨List.nodup_nil, List.forall_mem_nil _, nofun⟩
  nanFree := Part.everywhere_record.mpr ⟨trivial, List.forall_mem_nil _, nofun⟩

variable {r : RecordTy} {t : Ty} (hr : (Ty.record r).IsSound) (ht : t.IsSound)

include hr ht

/-- A record stays sound when a field is declared, with a default of its type that conforms or with
the zero. -/
theorem declare {default : Value} (hkeyed : default.Keyed) (hnan : default.NaNFree)
    (hdefault : default = t.zero ∨ t.admits default = true ∧ default.Conforms) (key : String) :
    (Ty.record (r.declare key ⟨t, default⟩)).IsSound where
  parts := by
    obtain ⟨hself, hfields, hrest⟩ := everywhere_record.mp hr.parts
    refine everywhere_record.mpr ⟨fun f hf => ?_, fun f hf => ?_, hrest⟩
    · -- A field of the result was declared before or is the new one.
      rcases Entries.mem_insert hf with hold | rfl
      · exact hself f hold
      · exact hdefault
    · rcases Entries.mem_insert hf with hold | rfl
      · exact hfields f hold
      · exact ht.parts
  keyed := by
    obtain ⟨hdistinct, hfields, hrest⟩ := Part.everywhere_record.mp hr.keyed
    have hkeys := Entries.Distinct.insert hdistinct key (⟨t, default⟩ : Field)
    refine Part.everywhere_record.mpr ⟨hkeys, fun f hf => ?_, hrest⟩
    rcases Entries.mem_insert hf with hold | rfl
    · exact hfields f hold
    · exact ⟨ht.keyed, hkeyed⟩
  nanFree := by
    obtain ⟨-, hfields, hrest⟩ := Part.everywhere_record.mp hr.nanFree
    refine Part.everywhere_record.mpr ⟨trivial, fun f hf => ?_, hrest⟩
    rcases Entries.mem_insert hf with hold | rfl
    · exact hfields f hold
    · exact ⟨ht.nanFree, hnan⟩

/-- A field whose default is not declared takes the zero, which holds no NaN. -/
theorem field (key : String) : (Ty.record (r.field key t)).IsSound :=
  declare hr ht ht.keyed.zero ht.nanFree.zero (.inl rfl) key

/-- A field whose default its type admits keeps a record sound. -/
theorem fieldWithDefault {default : Value} (hkeyed : default.Keyed) (hnan : default.NaNFree)
    (hadmits : t.admits default = true) (hconforms : default.Conforms) (key : String) :
    (Ty.record (r.fieldWithDefault key t default)).IsSound :=
  declare hr ht hkeyed hnan (.inr ⟨hadmits, hconforms⟩) key

theorem withRest : (Ty.record (r.withRest t)).IsSound where
  parts := by
    obtain ⟨hself, hfields, -⟩ := everywhere_record.mp hr.parts
    refine everywhere_record.mpr ⟨hself, hfields, fun u hu => ?_⟩
    exact Option.some.inj hu ▸ ht.parts
  keyed := by
    obtain ⟨hself, hfields, -⟩ := Part.everywhere_record.mp hr.keyed
    refine Part.everywhere_record.mpr ⟨hself, hfields, fun u hu => ?_⟩
    exact Option.some.inj hu ▸ ht.keyed
  nanFree := by
    obtain ⟨-, hfields, -⟩ := Part.everywhere_record.mp hr.nanFree
    refine Part.everywhere_record.mpr ⟨trivial, hfields, fun u hu => ?_⟩
    exact Option.some.inj hu ▸ ht.nanFree

end IsSound

end Ty

/-! ## Zeros and empty objects -/

/-- A record takes its defaults from an object that has none of its fields, and checks them. -/
theorem RecordTy.decode_of_absent {r : RecordTy} (hsound : (Ty.record r).IsSound)
    {source : TypedMap} (hobject : (Value.map source).asObject? = some source)
    (habsent : ∀ f ∈ r.fields, source.get? f.1 = none) {depth inner : Depth}
    (henter : depth.enter = .ok inner) :
    r.decode depth (.map source) =
      .ok ⟨.record r, r.fields.map fun f => (f.1, f.2.default), false⟩ := by
  refine (decode_eq_ok_iff hobject hsound.keyed.self).mpr ⟨inner, henter, _, ?_, rfl⟩
  refine List.forall₂_map_right_iff.mpr (List.forall₂_same.mpr fun f hf => ⟨rfl, ?_, ?_⟩)
  · rw [habsent f hf, Field.decode_none]
  · exact (hsound.default hf).1

/-- **Zeros are values of their types.** The zero of a sound type is admitted by it and conforms at
every depth. And for a sound record it is what an object without any of the fields is converted to,
entry by entry, as soon as one container may be entered. -/
theorem zeros_areSound :
    (∀ t : Ty, t.IsSound → t.admits t.zero = true ∧ t.zero.Conforms) ∧
    ∀ r : RecordTy, (Ty.record r).IsSound →
      ∀ source : TypedMap, (Value.map source).asObject? = some source →
        (∀ f ∈ r.fields, source.get? f.1 = none) → ∀ limit, 1 ≤ limit →
          (r.decode (.root limit) (.map source)).map Value.map = .ok (Ty.record r).zero := by
  refine ⟨fun t h => h.zero, fun r hr source hobject habsent limit hlimit => ?_⟩
  have henter : (Depth.root limit).enter = .ok ⟨1, limit⟩ := Depth.enter_eq_ok_iff.mpr ⟨hlimit, rfl⟩
  rw [RecordTy.decode_of_absent hr hobject habsent henter]
  rfl

/-- A record type with a default that was declared. -/
def RecordTy.theme : RecordTy :=
  ((named "Theme").field "name" .string).fieldWithDefault "size" .int (.int 12)

/-- A record type with two unions and with that record in it. Other keys hold maps of arrays. -/
def RecordTy.settings : RecordTy :=
  ((((named "Settings").field "mode" (.unionOf [.int, .string])).field "note"
    (.unionOf [.string, .null])).field "theme" (.record .theme)).withRest (.mapOf (.array .json))

/-- The zero of the settings: the first member of one union, null for the other, and the defaults of
the theme. -/
def TypedMap.settingsZero : TypedMap :=
  ⟨.record .settings, [("mode", .int 0), ("note", .null),
    ("theme", .map ⟨.record .theme, [("name", .string ""), ("size", .int 12)], false⟩)], false⟩

theorem zeros_areSound_settings :
    (Ty.record .settings).IsSound ∧ (Ty.record .settings).zero = .map .settingsZero ∧
      (Ty.record .settings).admits (.map .settingsZero) = true ∧
      (Value.map .settingsZero).Conforms ∧
      (RecordTy.settings.decode (.root 1) (.map ⟨.json, [], false⟩)).map Value.map =
        .ok (.map .settingsZero) := by
  have hkeyed : (Value.int 12).Keyed := Part.everywhere_scalar.mpr trivial
  have hnan : (Value.int 12).NaNFree := Part.everywhere_scalar.mpr trivial
  have hconforms : (Value.int 12).Conforms := Value.everywhere_scalar.mpr trivial
  have htheme : (Ty.record .theme).IsSound :=
    ((Ty.IsSound.named "Theme").field (.scalar .string) "name").fieldWithDefault (.scalar .int)
      hkeyed hnan rfl hconforms "size"
  have hmode : (Ty.unionOf [.int, .string]).IsSound := by
    refine .unionOf (List.cons_ne_nil _ _) ?_
    simp [Ty.IsSound.scalar]
  have hnote : (Ty.unionOf [.string, .null]).IsSound := by
    refine .unionOf (List.cons_ne_nil _ _) ?_
    simp [Ty.IsSound.scalar, Ty.IsSound.null]
  have hunions := ((Ty.IsSound.named "Settings").field hmode "mode").field hnote "note"
  have hsettings : (Ty.record .settings).IsSound :=
    (hunions.field htheme "theme").withRest (.mapOf (.array .json))
  have hzero : (Ty.record .settings).zero = .map .settingsZero := rfl
  obtain ⟨hadmits, hzeroConforms⟩ := zeros_areSound.1 _ hsettings
  have hdecode := zeros_areSound.2 _ hsettings ⟨.json, [], false⟩ rfl (fun _ _ => rfl) 1 (by decide)
  exact ⟨hsettings, hzero, hzero ▸ hadmits, hzero ▸ hzeroConforms, hzero ▸ hdecode⟩

end TypedJson
