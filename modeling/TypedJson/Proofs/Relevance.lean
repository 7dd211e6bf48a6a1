import TypedJson.Proofs.Contents

/-!
# TypedJson — what a conversion looks at

A record takes its declared fields and nothing else from an object. What stands under other keys,
the order of the entries and the declarations on the source do not matter, and that at every level:
a record inside an array inside a record is built in the same way.

* **`Ty.SeesSame`** — two sources that differ, for a target, in what does not matter at most;
* **`Ty.decode_eq_of_seesSame`** — they have the same outcome, be it a value or a failure;
* **`ConvertedInside`** — the conversions that a conversion consists of;
* **`decode_seesDeclaredOnly`** — both, and every record that is built on the way has exactly the
  declared keys, in the order of declaration.
-/

namespace TypedJson

/-! ## Loops with the same steps -/

/-- Loops whose steps are the same one by one are the same. -/
theorem foldlM_eq_of_forall₂ {α β ε σ : Type} {R : α → β → Prop} {step : σ → α → Except ε σ}
    {step' : σ → β → Except ε σ} {xs : List α} {ys : List β} (h : List.Forall₂ R xs ys)
    (hstep : ∀ x y, R x y → ∀ s, step s x = step' s y) (s : σ) :
    xs.foldlM step s = ys.foldlM step' s := by
  induction h generalizing s with
  | nil => rfl
  | cons hhead _ ih =>
    rw [List.foldlM_cons, List.foldlM_cons, hstep _ _ hhead s]
    exact bind_congr ih

/-- The labels count the values and do not depend on them. -/
theorem TypedArray.collectLabelled_eq_of_forall₂ {convert : Value → Except Error Value}
    {vs ws : List Value} (h : List.Forall₂ (fun v w => convert v = convert w) vs ws) (index : Nat)
    (out : TypedArray) :
    collectLabelled convert index vs out = collectLabelled convert index ws out := by
  induction h generalizing index out with
  | nil => rfl
  | cons hhead _ ih =>
    rw [collectLabelled, collectLabelled, hhead]
    exact bind_congr fun after => ih (index + 1) after

/-- The outcome for an array depends on the outcomes for its elements alone. -/
theorem TypedArray.decode_eq_of_forall₂ {element : Ty} {a b : TypedArray}
    (h : List.Forall₂ (fun x y => ∀ depth, element.decode depth x = element.decode depth y)
      a.toList b.toList) (depth : Depth) :
    decode element depth (.array a) = decode element depth (.array b) := by
  unfold decode decodeWith
  refine bind_congr fun inner => ?_
  have hitems : List.Forall₂ (fun x y => element.decode inner x = element.decode inner y)
      a.toList b.toList := h.imp fun _ _ hsame => hsame inner
  have hcollect (out : TypedArray) : collect (element.decode inner) a.toList out =
      collect (element.decode inner) b.toList out :=
    foldlM_eq_of_forall₂ hitems (fun x y hsame out => by rw [hsame]) out
  have hlabelled (out : TypedArray) : collectLabelled (element.decode inner) 0 a.toList out =
      collectLabelled (element.decode inner) 0 b.toList out :=
    collectLabelled_eq_of_forall₂ hitems 0 out
  cases element with
  | scalar k =>
    cases k with
    | byte => exact hlabelled _
    | _ => exact hcollect _
  | any =>
    -- elements of `any` are copied, and the conversion to `any` gives them as they are
    have hsame : a.toList = b.toList :=
      List.forall₂_eq_eq_eq ▸ hitems.imp fun _ _ heq => Except.ok.inj heq
    rw [hsame]
  | _ => exact hlabelled _

/-! ## Sources that look the same -/

/-- `t.SeesSame v w`: a conversion to `t` finds the same in `v` and in `w`. Objects are compared by
the declared keys where the target is a record and entry by entry where it is a map. -/
inductive Ty.SeesSame : Ty → Value → Value → Prop
  | refl (t : Ty) (v : Value) : SeesSame t v v
  | array {element : Ty} {a b : TypedArray} (size : a.size = b.size)
    (items : ∀ x y, (x, y) ∈ a.toList.zip b.toList → SeesSame element x y) :
    SeesSame (.array element) (.array a) (.array b)
  | map {constraint : Option Ty} {v w : Value} {source other : TypedMap}
    (hv : v.asObject? = some source) (hw : w.asObject? = some other)
    (keys : source.keys = other.keys)
    (values : ∀ e e', (e, e') ∈ source.entries.zip other.entries →
      SeesSame (Ty.ofConstraint constraint) e.2 e'.2) :
    SeesSame (.map constraint) v w
  | record {r : RecordTy} {v w : Value} {source other : TypedMap}
    (hv : v.asObject? = some source) (hw : w.asObject? = some other)
    (keys : ∀ f ∈ r.fields, source.hasKey f.1 = other.hasKey f.1)
    (values : ∀ f ∈ r.fields, ∀ x y, source.get? f.1 = some x → other.get? f.1 = some y →
      SeesSame f.2.ty x y) :
    SeesSame (.record r) v w
  | union {members : List Ty} {nullable : Bool} {only : Ty} {v w : Value}
    (honly : Ty.nonNull members = [only]) (h : SeesSame only v w) :
    SeesSame (.union members nullable) v w

namespace Ty.SeesSame

variable {t : Ty} {v w : Value}

/-- Null looks like null only. -/
theorem isNull_eq (h : t.SeesSame v w) : v.isNull = w.isNull := by
  -- a value that opens up as an array or an object is not `null`, whatever is in it
  induction h with
  | refl t v => rfl
  | array size items ih => rfl
  | map hv hw keys values ih =>
    rw [Value.eq_map_of_asObject? hv, Value.eq_map_of_asObject? hw]
    rfl
  | record hv hw keys values ih =>
    rw [Value.eq_map_of_asObject? hv, Value.eq_map_of_asObject? hw]
    rfl
  | union honly h ih => exact ih

/-- A target that takes its source as it is sees all of it. -/
theorem eq_of_taken (h : t.SeesSame v w) (ht : (t.isAny || t.isJson) = true) : v = w := by
  cases h with
  | refl => rfl
  | _ => cases ht

/-- Objects with the same values under the declared keys look the same. -/
theorem of_get?_eq {r : RecordTy} {source other : TypedMap} (hv : v.asObject? = some source)
    (hw : w.asObject? = some other)
    (h : ∀ f ∈ r.fields, source.get? f.1 = other.get? f.1) : (Ty.record r).SeesSame v w := by
  refine .record hv hw (fun f hf => congrArg Option.isSome (h f hf)) fun f hf x y hx hy => ?_
  rw [h f hf, hy] at hx
  exact Option.some.inj hx ▸ .refl f.2.ty x

end Ty.SeesSame

/-- The outcome for a map depends on its keys and on what its values look like. -/
theorem TypedMap.decode_eq_of_forall₂ {constraint : Option Ty} {v w : Value}
    {source other : TypedMap} (hv : v.asObject? = some source) (hw : w.asObject? = some other)
    (h : List.Forall₂ (fun e e' => e.1 = e'.1 ∧
      (Ty.ofConstraint constraint).SeesSame e.2 e'.2 ∧
      ∀ depth, (Ty.ofConstraint constraint).decode depth e.2 =
        (Ty.ofConstraint constraint).decode depth e'.2) source.entries other.entries)
    (depth : Depth) : decode constraint depth v = decode constraint depth w := by
  -- with and without a constraint, the loops differ in what they do with a value only
  have hloop {convert : Depth → Value → Except Error Value}
      (hconvert : ∀ (e e' : String × Value), (Ty.ofConstraint constraint).SeesSame e.2 e'.2 →
        (∀ depth, (Ty.ofConstraint constraint).decode depth e.2 =
          (Ty.ofConstraint constraint).decode depth e'.2) →
        ∀ inner, convert inner e.2 = convert inner e'.2) :
      decodeWith constraint convert depth v = decodeWith constraint convert depth w := by
    unfold decodeWith
    rw [hv, hw]
    refine bind_congr fun inner => foldlM_eq_of_forall₂ h (fun e e' hsame out => ?_) _
    obtain ⟨hkey, hsees, hdecode⟩ := hsame
    simp only [hkey, hconvert e e' hsees hdecode inner]
  cases constraint with
  | none => exact hloop fun e e' hsees _ _ => congrArg _ (hsees.eq_of_taken rfl)
  | some t =>
    refine hloop fun e e' hsees hdecode inner => ?_
    split
    · rename_i htaken
      exact congrArg _ (hsees.eq_of_taken htaken)
    · exact hdecode inner

/-- **Sources that look the same have the same outcome**, a value or a failure. -/
theorem Ty.decode_eq_of_seesSame {t : Ty} {v w : Value} (h : t.SeesSame v w) (depth : Depth) :
    t.decode depth v = t.decode depth w := by
  induction h generalizing depth with
  | refl t v => rfl
  | array size items ih =>
    have hitems := List.forall₂_iff_zip.mpr ⟨size, fun hxy => ih _ _ hxy⟩
    exact congrArg (Except.map Value.array) (TypedArray.decode_eq_of_forall₂ hitems depth)
  | map hv hw keys values ih =>
    have hentries := Entries.forall₂_of_keys_eq keys
      (R := fun x y => (Ty.ofConstraint _).SeesSame x y ∧ ∀ depth,
        (Ty.ofConstraint _).decode depth x = (Ty.ofConstraint _).decode depth y)
      fun e e' he => ⟨values e e' he, ih e e' he⟩
    exact congrArg (Except.map Value.map) (TypedMap.decode_eq_of_forall₂ hv hw hentries depth)
  | @record r v w source other hv hw keys values ih =>
    refine congrArg (Except.map Value.map) ?_
    rw [RecordTy.decode_eq, RecordTy.decode_eq, hv, hw]
    refine bind_congr fun inner => ?_
    -- each declared field is absent from both sources or read from both
    have hfields : List.Forall₂ (fun f g => f.1 = g.1 ∧
        f.2.decode inner (source.get? f.1) = g.2.decode inner (other.get? g.1))
        r.fields r.fields := by
      refine List.forall₂_same.mpr fun f hf => ⟨rfl, ?_⟩
      have hkey : (source.get? f.1).isSome = (other.get? f.1).isSome := keys f hf
      cases hx : source.get? f.1 with
      | none =>
        rw [hx] at hkey
        have habsent : other.get? f.1 = none :=
          Option.not_isSome_iff_eq_none.mp (Bool.eq_false_iff.mp hkey.symm)
        rw [habsent, Field.decode_none]
      | some x =>
        rw [hx] at hkey
        obtain ⟨y, hy⟩ := Option.isSome_iff_exists.mp hkey.symm
        -- both are present: what they hold is seen the same
        rw [hy, Field.decode_some, Field.decode_some]
        exact ih f hf x y hx hy inner
    exact foldlM_eq_of_forall₂ hfields (fun f g hsame out => by rw [hsame.2, hsame.1]) _
  | @union members nullable only v w honly h ih =>
    rw [Ty.decode, Ty.decode, Ty.decodeOnly_eq, Ty.decodeOnly_eq, honly, h.isNull_eq]
    simp only [ih depth]

/-! ## The conversions inside a conversion -/

/-- `ConvertedInside s x y t v w`: where `v` is converted to `t` and gives `w`, the part `x` of `v`
is converted to `s` and gives the part `y` of `w`. The default of an absent field is not
converted. -/
inductive ConvertedInside (s : Ty) (x y : Value) : Ty → Value → Value → Prop
  | self : ConvertedInside s x y s x y
  | member {members : List Ty} {nullable : Bool} {only : Ty} {v w : Value}
    (honly : Ty.nonNull members = [only]) (hvalue : (v.isNull && nullable) = false)
    (h : ConvertedInside s x y only v w) : ConvertedInside s x y (.union members nullable) v w
  | element {element : Ty} {a b : TypedArray} {v w : Value} (hitem : (v, w) ∈ a.toList.zip b.toList)
    (h : ConvertedInside s x y element v w) :
    ConvertedInside s x y (.array element) (.array a) (.array b)
  | entry {constraint : Option Ty} {m out : TypedMap} {e e' : String × Value}
    (hobject : (Value.map m).asObject? = some m) (hentry : (e, e') ∈ m.entries.zip out.entries)
    (h : ConvertedInside s x y (Ty.ofConstraint constraint) e.2 e'.2) :
    ConvertedInside s x y (.map constraint) (.map m) (.map out)
  | field {r : RecordTy} {m out : TypedMap} {f : String × Field} {v w : Value}
    (hobject : (Value.map m).asObject? = some m) (hf : f ∈ r.fields) (hv : m.get? f.1 = some v)
    (hw : out.get? f.1 = some w) (h : ConvertedInside s x y f.2.ty v w) :
    ConvertedInside s x y (.record r) (.map m) (.map out)

/-- **The conversions inside a conversion are conversions**, each at some depth of its own. -/
theorem ConvertedInside.exists_decode {s t : Ty} {x y v w : Value}
    (h : ConvertedInside s x y t v w) (ht : t.Keyed) (hv : v.Keyed) {depth : Depth}
    (hdecode : t.decode depth v = .ok w) : ∃ inner, s.decode inner x = .ok y := by
  induction h generalizing depth with
  | self => exact ⟨depth, hdecode⟩
  | @member members nullable only v w honly hvalue _ ih =>
    rcases Ty.decode_union_eq_ok_iff.mp hdecode with ⟨hnull, -⟩ | ⟨-, only', honly', hdecode⟩
    · rw [hvalue] at hnull
      cases hnull
    · cases honly.symm.trans honly'
      exact ih (ht.member (Ty.mem_of_nonNull honly)) hv hdecode
  | @element element a b v w hitem _ ih =>
    obtain ⟨out, hout, heq⟩ := map_eq_ok_iff.mp hdecode
    cases heq
    obtain ⟨source, inner, heq, -, -, hitems⟩ := TypedArray.decode_eq_ok hout
    cases heq
    have hmem : v ∈ a.toList := (List.of_mem_zip hitem).1
    exact ih ht.element (hv.item hmem) (List.forall₂_zip hitems hitem).1
  | @entry constraint m out e e' hobject hentry _ ih =>
    obtain ⟨_, hout, heq⟩ := map_eq_ok_iff.mp hdecode
    cases heq
    obtain ⟨inner, -, es, hes, rfl⟩ := (TypedMap.decode_eq_ok_iff hobject hv.self).mp hout
    have hconstraint : (Ty.ofConstraint constraint).Keyed := by
      cases constraint with
      | none => exact Part.everywhere_any.mpr trivial
      | some t => exact ht.constraint
    have hmem : e ∈ m.entries := (List.of_mem_zip hentry).1
    exact ih hconstraint (hv.entry hmem) (List.forall₂_zip hes hentry).2.1
  | @field r m out f v w hobject hf hget hresult _ ih =>
    obtain ⟨_, hout, heq⟩ := map_eq_ok_iff.mp hdecode
    cases heq
    have hdistinct : Entries.Distinct r.fields := ht.self
    obtain ⟨inner, -, es, hes, rfl⟩ := (RecordTy.decode_eq_ok_iff hobject hdistinct).mp hout
    obtain ⟨e, he, hkey, hfield, -⟩ := exists_right_of_mem hes hf
    -- the keys of the record are distinct, so what is read under the key is this entry
    have hlookup : es.lookup e.1 = some e.2 :=
      (hdistinct.of_forall₂ hes fun _ _ hR => hR.1).lookup_eq_some he
    have hsame : e.2 = w := by
      rw [hkey] at hlookup
      exact Option.some.inj (hlookup.symm.trans hresult)
    rw [hget, Field.decode_some, hsame] at hfield
    exact ih (ht.field hf) (hv.entry (Entries.mem_of_lookup hget)) hfield

/-- A record is built with the declared keys in the order of declaration. -/
theorem RecordTy.keys_of_decode {r : RecordTy} (hdistinct : Entries.Distinct r.fields)
    {depth : Depth} {v : Value} {out : TypedMap} (h : r.decode depth v = .ok out) :
    out.ty = .record r ∧ out.keys = Entries.keys r.fields := by
  cases hobject : v.asObject? with
  | none =>
    rw [decode_eq, hobject] at h
    cases h
  | some source =>
    cases Value.eq_map_of_asObject? hobject
    -- the loop puts one entry for each field, in declaration order, under distinct names
    obtain ⟨inner, -, es, hes, rfl⟩ := (decode_eq_ok_iff hobject hdistinct).mp h
    exact ⟨rfl, Entries.keys_eq_of_forall₂ hes fun _ _ hR => hR.1⟩

/-- The targets inside a keyed type are keyed. -/
theorem ConvertedInside.keyed {s t : Ty} {x y v w : Value} (h : ConvertedInside s x y t v w)
    (ht : t.Keyed) : s.Keyed := by
  induction h with
  | self => exact ht
  | member honly hvalue _ ih => exact ih (ht.member (Ty.mem_of_nonNull honly))
  | element hitem _ ih => exact ih ht.element
  | @entry constraint m out e e' hobject hentry _ ih =>
    cases constraint with
    | none => exact ih (Part.everywhere_any.mpr trivial)
    | some t => exact ih ht.constraint
  | field hobject hf hget hresult _ ih => exact ih (ht.field hf)

/-- **A conversion sees the declared keys only, at every level.** Sources that look the same for the
target have the same outcome, and wherever a record is built on the way, its keys are the declared
ones in the order of declaration. -/
theorem decode_seesDeclaredOnly {t : Ty} {v w : Value} (hsame : t.SeesSame v w) (depth : Depth) :
    t.decode depth v = t.decode depth w ∧
      (t.Keyed → v.Keyed → ∀ out, t.decode depth v = .ok out →
        ∀ (r : RecordTy) (x y : Value), ConvertedInside (.record r) x y t v out →
          ∃ m, y = .map m ∧ m.ty = .record r ∧ m.keys = Entries.keys r.fields) := by
  refine ⟨Ty.decode_eq_of_seesSame hsame depth, fun ht hv out hout r x y hinside => ?_⟩
  obtain ⟨inner, hdecode⟩ := hinside.exists_decode ht hv hout
  obtain ⟨m, hm, rfl⟩ := map_eq_ok_iff.mp hdecode
  exact ⟨m, rfl, RecordTy.keys_of_decode (hinside.keyed ht).self hm⟩

/-- A record of a dish. -/
def RecordTy.dish : RecordTy where
  name := "Dish"
  fields := [("title", .ofTy .string), ("price", .ofTy .int)]
  rest := none

/-- A record with records in an array and in a union. -/
def RecordTy.menu : RecordTy where
  name := "Menu"
  fields := [("dishes", .ofTy (.array (.record .dish))),
    ("special", .ofTy (.optional (.record .dish)))]
  rest := none

/-- A menu with the declared keys only. -/
def Value.plainMenu : Value :=
  .map ⟨.json, [("dishes", .array (.ofBoxed .json
      [.map ⟨.json, [("title", .string "soup"), ("price", .int 4)], false⟩])),
    ("special", .map ⟨.json, [("title", .string "pie"), ("price", .int 9)], false⟩)], false⟩

/-- A dish with its keys in another order and with a key that is not declared. -/
def TypedMap.noisyDish : TypedMap :=
  ⟨.openMap, [("price", .int 4), ("vegan", .boolean true), ("title", .string "soup")], false⟩

/-- The same menu with undeclared keys and in another order, at both levels. -/
def Value.noisyMenu : Value :=
  .map ⟨.mapOf .any, [("author", .string "cook"),
    ("special", .map ⟨.json, [("price", .int 9), ("title", .string "pie")], true⟩),
    ("dishes", .array (.ofBoxed .any [.map .noisyDish]))], true⟩

/-- The dish that the noisy one is converted to. -/
def Value.soup : Value :=
  .map ⟨.record .dish, [("title", .string "soup"), ("price", .int 4)], false⟩

/-- The menu that either of the two is converted to. -/
def Value.servedMenu : Value :=
  .map ⟨.record .menu, [("dishes", .array (.ofBoxed (.record .dish) [.soup])),
    ("special", .map ⟨.record .dish, [("title", .string "pie"), ("price", .int 9)], false⟩)], false⟩

/-- Two menus that differ in undeclared keys, in the order of keys and in a frozen flag are read to
the same value, and the dish inside has the keys that its record declares, in that order. -/
theorem decode_seesDeclaredOnly_menu :
    (Ty.record .menu).SeesSame .noisyMenu .plainMenu ∧
      (Ty.record .menu).decode (.root 3) .noisyMenu =
        (Ty.record .menu).decode (.root 3) .plainMenu ∧
      (Ty.record .menu).decode (.root 3) .noisyMenu = .ok .servedMenu ∧
      ConvertedInside (.record .dish) (.map .noisyDish) .soup (.record .menu) .noisyMenu
        .servedMenu ∧
      ∃ m, Value.soup = .map m ∧ m.ty = .record .dish ∧ m.keys = ["title", "price"] := by
  have hdish : (Ty.record .dish).SeesSame (.map .noisyDish)
      (.map ⟨.json, [("title", .string "soup"), ("price", .int 4)], false⟩) :=
    .of_get?_eq rfl rfl (List.forall_mem_cons.mpr ⟨rfl, List.forall_mem_singleton.mpr rfl⟩)
  have hspecial : (Ty.record .dish).SeesSame
      (.map ⟨.json, [("price", .int 9), ("title", .string "pie")], true⟩)
      (.map ⟨.json, [("title", .string "pie"), ("price", .int 9)], false⟩) :=
    .of_get?_eq rfl rfl (List.forall_mem_cons.mpr ⟨rfl, List.forall_mem_singleton.mpr rfl⟩)
  have hsame : (Ty.record .menu).SeesSame .noisyMenu .plainMenu := by
    refine .record rfl rfl (by decide) (List.forall_mem_cons.mpr ⟨fun x y hx hy => ?_,
      List.forall_mem_cons.mpr ⟨fun x y hx hy => ?_, List.forall_mem_nil _⟩⟩)
    · cases hx
      cases hy
      refine .array rfl fun x y hxy => ?_
      cases List.mem_singleton.mp hxy
      exact hdish
    · cases hx
      cases hy
      exact .union rfl hspecial
  have ht : (Ty.record .menu).Keyed := by
    simp [Ty.Keyed, RecordTy.menu, RecordTy.dish, Field.ofTy, Ty.optional, Ty.zero, Scalar.zero,
      Part.HasDistinctKeys, Entries.Distinct, Entries.keys]
  have hv : Value.noisyMenu.Keyed := by
    simp [Value.Keyed, Value.noisyMenu, TypedMap.noisyDish, Part.HasDistinctKeys, Entries.Distinct,
      Entries.keys]
  obtain ⟨heq, hkeys⟩ := decode_seesDeclaredOnly hsame (.root 3)
  have hinside : ConvertedInside (.record .dish) (.map .noisyDish) .soup (.record .menu) .noisyMenu
      .servedMenu :=
    .field (f := ("dishes", .ofTy (.array (.record .dish)))) rfl List.mem_cons_self rfl rfl
      (.element List.mem_cons_self .self)
  exact ⟨hsame, heq, rfl, hinside, hkeys ht hv _ rfl _ _ _ hinside⟩

end TypedJson
