import TypedJson.Proofs.Shortcuts

/-!
# TypedJson — converting what was converted

What a conversion gives is converted to itself, by the same conversion under the same limit. That is
more than an equal value: types, storage, the order of keys and frozen flags are the same.

* **`TypedArray.Building.collect_again`**, **`TypedMap.collect_again`** — a loop over its own result
  comes to it again, if its conversion does so;
* **`Ty.decode_idempotent`** — so does each conversion to a type without records in it;
* **`encode_idempotent`** — and each conversion to JSON.

Records are left out because they take up defaults, and a default need not be what the type of its
field converts to.
-/

namespace TypedJson

/-! ## Loops -/

/-- What was appended is appended again. -/
theorem TypedArray.Building.collect_again {t : Ty} {convert : Value → Except Error Value}
    (hagain : ∀ v w, convert v = .ok w → convert w = .ok w)
    (hnormal : ∀ v w, convert v = .ok w → t.normalize w = w) {vs : List Value}
    {out after : TypedArray} (hout : out.Building t)
    (h : TypedArray.collect convert vs out = .ok after) :
    ∃ ws, after.toList = out.toList ++ ws ∧ TypedArray.collect convert ws out = .ok after := by
  -- on the source; what is converted again are the elements pushed after those already there
  induction vs generalizing out with
  | nil =>
    cases h
    exact ⟨[], (List.append_nil _).symm, rfl⟩
  | cons v rest ih =>
    obtain ⟨next, hnext, hrest⟩ := bind_eq_ok_iff.mp h
    obtain ⟨w, hw, hpush⟩ := bind_eq_ok_iff.mp hnext
    have happended : next.toList = out.toList ++ [w] := by
      obtain ⟨-, htoList⟩ := push_eq_ok hpush
      rw [htoList, hout.elementType, hnormal v w hw]
    obtain ⟨ws, hafter, hcollect⟩ := ih (hout.push hpush) hrest
    refine ⟨w :: ws, ?_, ?_⟩
    · rw [hafter, happended, List.append_assoc]
      rfl
    · have hstep : (convert w >>= out.push) = .ok next :=
        bind_eq_ok_iff.mpr ⟨w, hagain v w hw, hpush⟩
      exact (foldlM_cons_of_ok hstep ws).trans hcollect

/-- A map that is being built, of values that the conversion leaves alone and the map accepts. -/
structure TypedMap.Settled (t : Ty) (convert : Value → Except Error Value) (out : TypedMap) :
    Prop where
  building : out.Building t
  distinct : Entries.Distinct out.entries
  entries : ∀ e ∈ out.entries, convert e.2 = .ok e.2 ∧ (empty t).rejection? e.1 e.2 = none

namespace TypedMap

variable {t : Ty} {convert : Value → Except Error Value} {out after : TypedMap}

theorem Settled.ofEmpty : (empty t).Settled t convert where
  building := .ofEmpty t
  distinct := List.nodup_nil
  entries := List.forall_mem_nil _

/-- Storing an entry that converts to itself keeps the object settled. An earlier entry under the
key is overwritten, so the keys stay distinct. -/
theorem Settled.store (hout : out.Settled t convert) {key : String}
    {converted : Except Error Value} (hagain : ∀ w, converted = .ok w → convert w = .ok w)
    (h : out.store key converted = .ok after) : after.Settled t convert := by
  obtain ⟨w, hw, hput⟩ := store_eq_ok_iff.mp h
  have hbuilding : after.Building t := hout.building.put hput
  obtain ⟨-, haccepted, rfl⟩ := put_eq_ok_iff.mp hput
  rw [rejection?_congr (n := empty t) hout.building.ty] at haccepted
  refine ⟨hbuilding, hout.distinct.insert key w, fun e he => ?_⟩
  rcases Entries.mem_insert he with hold | rfl
  · exact hout.entries e hold
  · exact ⟨hagain w hw, haccepted⟩

/-- What is settled is put again, under the same keys in the same order. -/
theorem Settled.collect (hout : out.Settled t convert) :
    TypedMap.collect convert out.entries (.empty t) = .ok out := by
  refine (build_eq_ok_iff hout.distinct).mpr ⟨out.entries, ?_, ?_⟩
  · exact List.forall₂_same.mpr fun e he => ⟨rfl, hout.entries e he⟩
  · obtain ⟨ty, entries, frozen⟩ := out
    obtain ⟨rfl, rfl⟩ := hout.building
    rfl

/-- What was put is put again. -/
theorem collect_again {es : List (String × Value)}
    (hagain : ∀ e ∈ es, ∀ w, convert e.2 = .ok w → convert w = .ok w)
    (h : collect convert es (.empty t) = .ok out) :
    collect convert out.entries (.empty t) = .ok out := by
  have hsettled : out.Settled t convert :=
    foldlM_invariant (fun e he _ _ hs => hs.store (hagain e he)) .ofEmpty h
  exact hsettled.collect

end TypedMap

/-! ## From JSON -/

/-- An array that was converted is converted to itself. -/
theorem TypedArray.decode_again {element : Ty}
    (hagain : ∀ depth v w, element.decode depth v = .ok w → element.decode depth w = .ok w)
    {depth : Depth} {v : Value} {out : TypedArray} (h : decode element depth v = .ok out) :
    decode element depth (.array out) = .ok out := by
  obtain ⟨source, -, rfl, -⟩ := decode_eq_ok h
  obtain ⟨inner, henter, hloop⟩ := bind_eq_ok_iff.mp (decode_eq_ok_iff_decodeEach.mp h)
  obtain ⟨ws, htoList, hcollect⟩ := (Building.ofEmpty element).collect_again (hagain inner)
    (fun _ _ => Ty.normalize_of_decode) (collectLabelled_eq_ok_iff.mp hloop)
  -- the elements to convert again are the stored ones: normalizing left them as they came out
  have hitems : out.toList = ws := by simpa using htoList
  refine decode_eq_ok_iff_decodeEach.mpr (bind_eq_ok_iff.mpr ⟨inner, henter, ?_⟩)
  rw [hitems]
  exact collectLabelled_eq_ok_iff.mpr hcollect

/-- A map that was converted is converted to itself. -/
theorem TypedMap.decodeWith_again {constraint : Option Ty}
    {convert : Depth → Value → Except Error Value}
    (hagain : ∀ depth v w, convert depth v = .ok w → convert depth w = .ok w)
    {depth : Depth} {v : Value} {out : TypedMap}
    (h : decodeWith constraint convert depth v = .ok out) :
    decodeWith constraint convert depth (.map out) = .ok out := by
  -- the result is a map of the target type, which is a mapping type, so it is taken for an object
  have hobject : (Value.map out).asObject? = some out := by
    simp [Value.asObject?, (Building.decodeWith h).ty]
  obtain ⟨source, inner, rfl, henter, hcollect⟩ := decodeWith_eq_ok h
  rw [decodeWith, hobject]
  exact bind_eq_ok_iff.mpr ⟨inner, henter, collect_again (fun e _ => hagain inner e.2) hcollect⟩

/-- No value converts to a byte, so a scalar that was converted to has a JSON form. -/
theorem ScalarKind.isJson_of_decode {k : ScalarKind} {depth : Depth} {v r : Value}
    (h : k.decode depth v = .ok r) : k.isJson = true := by
  cases k with
  | byte =>
    cases v with
    | scalar s => cases s <;> cases h
    | _ => cases h
  | _ => rfl

/-- There is no record type in the type. -/
def Ty.IsRecordFree (t : Ty) : Prop := t.Everywhere fun s => ∀ r, s ≠ .record r

/-- **A conversion to a type without records is idempotent.** What it gives is converted to itself
under the same limit. -/
theorem Ty.decode_idempotent {t : Ty} (hfree : t.IsRecordFree) {depth : Depth} {v r : Value}
    (h : t.decode depth v = .ok r) : t.decode depth r = .ok r := by
  induction t generalizing depth v r with
  | scalar k =>
    obtain ⟨s, rfl, rfl⟩ := ScalarKind.decode_eq_ok h
    exact ScalarKind.decode_self (ScalarKind.isJson_of_decode h) depth
  | json =>
    rw [decode] at h
    split at h <;> cases h
    rename_i hadmits
    exact if_pos hadmits
  | any => rfl
  | null =>
    rw [decode] at h
    split at h <;> cases h
    rfl
  | union members nullable ih =>
    rcases decode_union_eq_ok_iff.mp h with ⟨hnull, rfl⟩ | ⟨-, only, honly, h⟩
    · obtain ⟨-, rfl⟩ := Bool.and_eq_true_iff.mp hnull
      rfl
    · have hmember : only ∈ members := mem_of_nonNull honly
      have hagain : only.decode depth r = .ok r := ih only hmember (hfree.member hmember) h
      cases hnull : r.isNull && nullable with
      | false => exact decode_union_eq_ok_iff.mpr (.inr ⟨hnull, only, honly, hagain⟩)
      | true =>
        -- a null that came out of the member is taken for the null of the union
        obtain rfl : r = .null := Value.eq_null_of_isNull (Bool.and_eq_true_iff.mp hnull).1
        exact decode_union_eq_ok_iff.mpr (.inl ⟨hnull, rfl⟩)
  | array element ih =>
    obtain ⟨out, hout, rfl⟩ := map_eq_ok_iff.mp h
    have hagain : TypedArray.decode element depth (.array out) = .ok out :=
      TypedArray.decode_again (fun _ _ _ => ih hfree.element) hout
    exact map_eq_ok_iff.mpr ⟨out, hagain, rfl⟩
  | openMap =>
    obtain ⟨out, hout, rfl⟩ := map_eq_ok_iff.mp h
    have hagain : TypedMap.decode none depth (.map out) = .ok out :=
      TypedMap.decodeWith_again (fun _ _ _ _ => rfl) hout
    exact map_eq_ok_iff.mpr ⟨out, hagain, rfl⟩
  | mapOf t ih =>
    obtain ⟨out, hout, rfl⟩ := map_eq_ok_iff.mp h
    have hagain : TypedMap.decode (some t) depth (.map out) = .ok out := by
      refine TypedMap.decodeWith_again (fun inner x y hconvert => ?_) hout
      split at hconvert
      · rename_i htaken
        rw [if_pos htaken]
      · rename_i htaken
        rw [if_neg htaken]
        exact ih hfree.constraint hconvert
    exact map_eq_ok_iff.mpr ⟨out, hagain, rfl⟩
  | record record => exact absurd rfl (hfree.self record)

/-- Rows of texts and nulls. -/
def Ty.rows : Ty := .mapOf (.array (.optional .string))

/-- A frozen object with a row of all sorts of values. -/
def Value.rows : Value :=
  .map ⟨.json, [("row", .array (.ofBoxed .json [.boolean true, .null, .map (.empty .json)]))], true⟩

/-- The row as texts. -/
def TypedMap.rows : TypedMap :=
  ⟨.rows, [("row", .array (.ofBoxed (.optional .string)
    [.string "true", .null, .string "\x7b\x7d"]))], false⟩

/-- A row of all sorts of values is converted to texts and nulls, and that again to itself. -/
theorem Ty.decode_idempotent_rows :
    Ty.rows.decode (.root 3) .rows = .ok (.map .rows) ∧
      Ty.rows.decode (.root 3) (.map .rows) = .ok (.map .rows) := by
  have hfree : Ty.rows.IsRecordFree := by simp [Ty.rows, Ty.optional, Ty.IsRecordFree]
  have hdecode : Ty.rows.decode (.root 3) .rows = .ok (.map .rows) := rfl
  exact ⟨hdecode, Ty.decode_idempotent hfree hdecode⟩

/-! ## To JSON -/

variable {depth : Depth}

/-- An array that was converted to JSON is converted to itself. -/
theorem TypedArray.encode_again {a out : TypedArray} (hkept : a.WellKept)
    (hagain : ∀ v ∈ a.toList, ∀ depth w, v.encodeEntry .json depth = .ok w →
      w.encodeEntry .json depth = .ok w)
    (h : a.encode depth = .ok out) : out.encode depth = .ok out := by
  obtain ⟨inner, henter, ws, hws, rfl⟩ := hkept.encode_eq_ok_iff.mp h
  have hitems (w) (hw : w ∈ ws) :
      Ty.json.admits w = true ∧ w.encodeElement true inner = .ok w := by
    obtain ⟨v, hv, hencode⟩ := exists_left_of_mem hws hw
    have hentry : v.encodeEntry .json inner = .ok w := Value.encodeEntry_of_encodeElement hencode
    -- in an array of `json` scalars pass as they do in an object
    rw [Value.encodeElement_eq_encodeEntry (fun _ _ => rfl)]
    exact ⟨Value.admits_json_of_encodeEntry hentry, hagain v hv inner w hentry⟩
  have hadmitted : ∀ w ∈ (ofBoxed .json ws).toList, Ty.json.admits w = true :=
    fun w hw => (hitems w hw).1
  refine (encode_eq_ok_iff hadmitted fun _ _ => rfl).mpr ?_
  exact ⟨inner, henter, ws, List.forall₂_same.mpr fun w hw => (hitems w hw).2, rfl⟩

/-- A JSON object that was built is rebuilt as itself. -/
theorem TypedMap.rebuild_again {m out : TypedMap}
    (hagain : ∀ e ∈ m.entries, ∀ depth w, e.2.encodeEntry .json depth = .ok w →
      w.encodeEntry .json depth = .ok w)
    (h : m.rebuild .json depth = .ok out) : out.rebuild .json depth = .ok out := by
  obtain ⟨inner, henter, hcollect⟩ := rebuild_eq_ok h
  rw [rebuild_eq]
  exact bind_eq_ok_iff.mpr ⟨inner, henter, collect_again (fun e he => hagain e he inner) hcollect⟩

/-- **What lies inside a container is converted to something that is converted to itself.** -/
theorem Value.WellBuilt.encodeEntry_again {v w : Value} (hwell : v.WellBuilt)
    (h : v.encodeEntry .json depth = .ok w) : w.encodeEntry .json depth = .ok w := by
  induction v generalizing depth w with
  | null =>
    cases h
    rfl
  | scalar s =>
    obtain ⟨hpass, rfl⟩ := Scalar.encode_eq_ok_iff.mp h
    exact h
  | array a ih =>
    obtain ⟨hkept, hitems⟩ := everywhere_array.mp hwell
    obtain ⟨out, hout, rfl⟩ := map_eq_ok_iff.mp h
    have hagain : out.encode depth = .ok out :=
      TypedArray.encode_again hkept (fun v hv _ _ => ih v hv (hitems v hv)) hout
    exact map_eq_ok_iff.mpr ⟨out, hagain, rfl⟩
  | map m ih =>
    -- an object comes out, and as an object it is passed on
    have hobject : ∃ out : TypedMap, w = .map out ∧ out.ty = .json := by
      rcases TypedMap.encode_eq_ok h with ⟨hjson, rfl⟩ | ⟨out, hout, rfl⟩
      · exact ⟨m, rfl, hjson⟩
      · exact ⟨out, rfl, (TypedMap.Building.rebuild hout).ty⟩
    obtain ⟨out, rfl, hty⟩ := hobject
    exact TypedMap.encodeEntry_object hty .json depth

/-- **A conversion to JSON is idempotent.** What comes out of it, be it an array or a JSON object,
is converted to itself under the same limit. -/
theorem encode_idempotent (depth : Depth) :
    (∀ a out : TypedArray, (Value.array a).WellBuilt → a.encode depth = .ok out →
      out.encode depth = .ok out) ∧
    ∀ (v : Value) (out : TypedMap), v.WellBuilt → v.encodeRecord depth = .ok out →
      (Value.map out).encodeRecord depth = .ok out := by
  refine ⟨fun a out hwell h => ?_, fun v out hwell h => ?_⟩
  · obtain ⟨hkept, hitems⟩ := Value.everywhere_array.mp hwell
    exact TypedArray.encode_again hkept
      (fun v hv _ _ => Value.WellBuilt.encodeEntry_again (hitems v hv)) h
  · obtain ⟨m, rfl, hm⟩ := Value.encodeRecord_eq_ok h
    obtain ⟨-, hentries⟩ := Value.everywhere_map.mp hwell
    have hagain : out.rebuild .json depth = .ok out := TypedMap.rebuild_again
      (fun e he _ _ => Value.WellBuilt.encodeEntry_again (hentries e he)) hm
    -- the result is a JSON object at the root, and the root is rebuilt whatever it is
    have hmapping : out.ty.isMapping = true := by
      rw [(TypedMap.Building.rebuild hm).ty]
      rfl
    exact (if_pos hmapping).trans hagain

/-- A frozen object, to be enclosed in a letter. -/
def TypedMap.sealed : TypedMap := ⟨.json, [("ps", .null)], true⟩

/-- The object in the letter stays frozen. -/
theorem encode_idempotent_letter :
    (Value.letter .sealed).encodeRecord (.root 3) = .ok (.letter .sealed) ∧
      (Value.map (.letter .sealed)).encodeRecord (.root 3) = .ok (.letter .sealed) := by
  have hsealed : (Value.map .sealed).WellBuilt := by
    simp [Value.WellBuilt, TypedMap.sealed, Value.WellKept]
    decide
  have hencode : (Value.letter .sealed).encodeRecord (.root 3) = .ok (.letter .sealed) := rfl
  obtain ⟨-, hrecord⟩ := encode_idempotent (.root 3)
  exact ⟨hencode, hrecord _ _ (Value.wellBuilt_letter hsealed) hencode⟩

end TypedJson
