import TypedJson.Proofs.Admission
import TypedJson.Proofs.Nesting
import TypedJson.Proofs.PureJson

/-!
# TypedJson — what can be converted to JSON

Whether a container can be converted to JSON is seen without a conversion. What is rebuilt are the
arrays, the maps and the records in it; a JSON object in it is passed on, and nothing in that object
matters. Little is asked of each container that is rebuilt, and of all of them that they are not
nested too deep.

* **`Value.RebuiltIn`** — the containers that are rebuilt;
* **`Value.CanBeRebuilt`** — what is asked of each;
* **`Value.rebuiltNesting`** — how deep they are nested;
* **`encode_succeeds_iff`** — a conversion succeeds exactly where all this is so.

That the JSON object which is built accepts what was converted is no condition of its own: it always
does.
-/

namespace TypedJson

/-! ## What is rebuilt -/

namespace Value

/-- `x.RebuiltIn v`: a conversion of the container `v` gets to `x`. Of the JSON objects it goes into
the outermost container only. -/
inductive RebuiltIn : Value → Value → Prop
  | self (v : Value) : RebuiltIn v v
  | inside {x y v : Value} (hx : x ∈ v.contents) (hobject : ¬ x.IsJsonObject)
    (h : RebuiltIn y x) : RebuiltIn y v

/-- The predicate holds of all that is rebuilt. -/
def EverywhereRebuilt (P : Value → Prop) (v : Value) : Prop := ∀ x, RebuiltIn x v → P x

/-- One level of `EverywhereRebuilt`: the value itself, and what it holds except for the JSON
objects, which are passed on without a look inside. -/
theorem everywhereRebuilt_iff {P : Value → Prop} {v : Value} :
    v.EverywhereRebuilt P ↔
      P v ∧ ∀ x ∈ v.contents, ¬ x.IsJsonObject → x.EverywhereRebuilt P := by
  constructor
  · intro h
    exact ⟨h v (.self v), fun x hx hobject y hy => h y (.inside hx hobject hy)⟩
  · rintro ⟨hself, hinside⟩ y hy
    cases hy with
    | self => exact hself
    | inside hx hobject hy => exact hinside _ hx hobject y hy

/-- What is asked of a container that is rebuilt. An array must not hold bytes, and other scalars
only if its element type is JSON throughout. A map must be a JSON object, a map or a record, and
must not hold bytes. -/
def CanBeRebuilt : Value → Prop
  | .array a => ∀ s, .scalar s ∈ a.toList → s.kind ≠ .byte ∧ a.elementType.isJsonCompatible = true
  | .map m => m.ty.isMapping = true ∧ ∀ e ∈ m.entries, ∀ b, e.2 ≠ .byte b
  | _ => True

end Value

/-! ## How deep it is nested -/

mutual

/-- The number of rebuilt containers on the deepest way into a value that lies inside a container. A
JSON object counts for nothing there. -/
def Value.rebuiltInside : Value → Nat
  | .null => 0
  | .scalar _ => 0
  | .array a => a.rebuiltInside
  | .map m => m.rebuiltInside
termination_by structural v => v

def TypedArray.rebuiltInside : TypedArray → Nat
  | ⟨_, storage, _⟩ => storage.rebuiltInside + 1
termination_by structural a => a

def Storage.rebuiltInside : Storage → Nat
  | .packed _ => 0
  | .boxed elements => Value.rebuiltInsideAll elements
termination_by structural s => s

def TypedMap.rebuiltInside : TypedMap → Nat
  | ⟨ty, entries, _⟩ => if ty.isJson then 0 else Value.rebuiltInsideEntries entries + 1
termination_by structural m => m

def Value.rebuiltInsideAll : List Value → Nat
  | [] => 0
  | v :: rest => max v.rebuiltInside (Value.rebuiltInsideAll rest)
termination_by structural vs => vs

def Value.rebuiltInsideEntries : List (String × Value) → Nat
  | [] => 0
  | (_, v) :: rest => max v.rebuiltInside (Value.rebuiltInsideEntries rest)
termination_by structural es => es

end

/-- The number of rebuilt containers on the deepest way into a value. The outermost counts in any
case. -/
def Value.rebuiltNesting : Value → Nat
  | .map m => Value.rebuiltInsideEntries m.entries + 1
  | v => v.rebuiltInside

/-- A container that can be converted to JSON under the limit. -/
structure Value.IsEncodable (v : Value) (limit : Nat) : Prop where
  rebuilt : v.EverywhereRebuilt CanBeRebuilt
  nesting : v.rebuiltNesting ≤ limit

theorem Value.rebuiltInsideAll_le_iff {vs : List Value} {n : Nat} :
    Value.rebuiltInsideAll vs ≤ n ↔ ∀ v ∈ vs, v.rebuiltInside ≤ n := by
  induction vs with
  | nil => simp [Value.rebuiltInsideAll]
  | cons v rest ih => rw [Value.rebuiltInsideAll, Nat.max_le, ih, List.forall_mem_cons]

theorem Value.rebuiltInsideEntries_le_iff {es : List (String × Value)} {n : Nat} :
    Value.rebuiltInsideEntries es ≤ n ↔ ∀ e ∈ es, e.2.rebuiltInside ≤ n := by
  induction es with
  | nil => simp [Value.rebuiltInsideEntries]
  | cons e rest ih => rw [Value.rebuiltInsideEntries, Nat.max_le, ih, List.forall_mem_cons]

/-- An array takes one level more than the deepest of its elements; packed elements are scalars and
take none. -/
theorem TypedArray.rebuiltNesting_le_iff {a : TypedArray} {n : Nat} :
    (Value.array a).rebuiltNesting ≤ n + 1 ↔
      ∀ x ∈ (Value.array a).contents, x.rebuiltInside ≤ n := by
  obtain ⟨elementType, storage, frozen⟩ := a
  rw [Value.rebuiltNesting, Value.rebuiltInside, rebuiltInside, Nat.add_le_add_iff_right]
  · cases storage with
    | packed column =>
      refine iff_of_true (Nat.zero_le n) fun v hv => ?_
      obtain ⟨s, -, rfl⟩ := List.mem_map.mp hv
      exact Nat.zero_le n
    | boxed elements => exact Value.rebuiltInsideAll_le_iff
  · intro m h
    cases h

theorem TypedMap.rebuiltNesting_le_iff {m : TypedMap} {n : Nat} :
    (Value.map m).rebuiltNesting ≤ n + 1 ↔
      ∀ x ∈ (Value.map m).contents, x.rebuiltInside ≤ n := by
  rw [Value.rebuiltNesting, Nat.add_le_add_iff_right, Value.rebuiltInsideEntries_le_iff]
  simp only [Value.contents, List.forall_mem_map]

/-- Inside a container a JSON object counts for nothing. -/
theorem TypedMap.rebuiltInside_of_json {m : TypedMap} (h : m.ty = .json) :
    (Value.map m).rebuiltInside = 0 := by
  obtain ⟨ty, entries, frozen⟩ := m
  obtain rfl : ty = .json := h
  rfl

/-- Anything else counts as it does on its own. -/
theorem Value.rebuiltInside_of_not_object {v : Value} (h : ¬ v.IsJsonObject) :
    v.rebuiltInside = v.rebuiltNesting := by
  cases v with
  | map m =>
    obtain ⟨ty, entries, frozen⟩ := m
    cases ty with
    | json => exact absurd rfl h
    | _ => rfl
  | _ => rfl

/-! ## One container -/

/-- What is asked of a value that lies inside a container at this depth, unless it is a byte. -/
structure Value.PassesInside (x : Value) (depth : Depth) : Prop where
  rebuilt : ¬ x.IsJsonObject → x.EverywhereRebuilt CanBeRebuilt
  room : depth.HasRoom x.rebuiltInside

namespace Value

variable {v : Value} {depth : Depth}

/-- What has no contents passes. -/
theorem passesInside_of_empty (hempty : v.contents = []) (hself : v.CanBeRebuilt)
    (hnesting : v.rebuiltInside = 0) (hdepth : depth.current ≤ depth.limit) :
    v.PassesInside depth where
  rebuilt _ := by
    rw [everywhereRebuilt_iff, hempty]
    exact ⟨hself, List.forall_mem_nil _⟩
  room := by
    rw [hnesting]
    exact hdepth

/-- What is no JSON object passes if it can be rebuilt and there is room for it. -/
theorem passesInside_iff (hobject : ¬ v.IsJsonObject) :
    v.PassesInside depth ↔
      v.EverywhereRebuilt CanBeRebuilt ∧ depth.HasRoom v.rebuiltNesting := by
  rw [← rebuiltInside_of_not_object hobject]
  exact ⟨fun h => ⟨h.rebuilt hobject, h.room⟩, fun h => ⟨fun _ => h.1, h.2⟩⟩

/-- A container can be rebuilt with all that is in it exactly if it can be rebuilt itself and can be
entered, and its contents pass then. -/
theorem everywhereRebuilt_hasRoom_iff (hroom : depth.HasRoom v.rebuiltNesting ↔
      ∃ inner, depth.enter = .ok inner ∧ ∀ x ∈ v.contents, inner.HasRoom x.rebuiltInside) :
    (v.EverywhereRebuilt CanBeRebuilt ∧ depth.HasRoom v.rebuiltNesting) ↔
      v.CanBeRebuilt ∧ ∃ inner, depth.enter = .ok inner ∧
        ∀ x ∈ v.contents, x.PassesInside inner := by
  rw [everywhereRebuilt_iff, hroom]
  constructor
  · rintro ⟨⟨hself, hrebuilt⟩, inner, henter, hroom⟩
    exact ⟨hself, inner, henter, fun x hx => ⟨hrebuilt x hx, hroom x hx⟩⟩
  · rintro ⟨hself, inner, henter, hpass⟩
    refine ⟨⟨hself, fun x hx => (hpass x hx).rebuilt⟩, inner, henter, fun x hx => ?_⟩
    exact (hpass x hx).room

end Value

/-- An array converts within `depth` when it can be rebuilt and each element passes one level
further in. -/
theorem TypedArray.everywhereRebuilt_hasRoom_iff {a : TypedArray} {depth : Depth} :
    ((Value.array a).EverywhereRebuilt Value.CanBeRebuilt ∧
        depth.HasRoom (Value.array a).rebuiltNesting) ↔
      (Value.array a).CanBeRebuilt ∧ ∃ inner, depth.enter = .ok inner ∧
        ∀ v ∈ a.toList, v.PassesInside inner := by
  have hpos : 0 < (Value.array a).rebuiltNesting := by
    cases a
    exact Nat.succ_pos _
  exact Value.everywhereRebuilt_hasRoom_iff (Depth.hasRoom_iff hpos fun _ => rebuiltNesting_le_iff)

theorem TypedMap.everywhereRebuilt_hasRoom_iff {m : TypedMap} {depth : Depth} :
    ((Value.map m).EverywhereRebuilt Value.CanBeRebuilt ∧
        depth.HasRoom (Value.map m).rebuiltNesting) ↔
      (Value.map m).CanBeRebuilt ∧ ∃ inner, depth.enter = .ok inner ∧
        ∀ e ∈ m.entries, e.2.PassesInside inner := by
  have hpos : 0 < (Value.map m).rebuiltNesting := Nat.succ_pos _
  rw [Value.everywhereRebuilt_hasRoom_iff (Depth.hasRoom_iff hpos fun _ => rebuiltNesting_le_iff)]
  simp only [Value.contents, List.forall_mem_map]

/-- An entry can be converted exactly if it is no byte and passes. -/
def Value.EncodesIffPasses (v : Value) : Prop :=
  ∀ depth : Depth, depth.current ≤ depth.limit →
    ((∃ w, v.encodeEntry .json depth = .ok w) ↔ (∀ b, v ≠ .byte b) ∧ v.PassesInside depth)

/-- An element can be converted exactly if it passes and is no scalar that the array keeps back. -/
theorem Value.EncodesIffPasses.element {v : Value} (h : v.EncodesIffPasses) {allowed : Bool}
    {depth : Depth} (hdepth : depth.current ≤ depth.limit) :
    (∃ w, v.encodeElement allowed depth = .ok w) ↔
      (∀ s, v = .scalar s → s.kind ≠ .byte ∧ allowed = true) ∧ v.PassesInside depth := by
  -- only a scalar is asked whether the element type is JSON compatible; a container is converted
  -- whatever the answer
  cases v with
  | scalar s =>
    have hpass : (Value.scalar s).PassesInside depth :=
      passesInside_of_empty rfl trivial rfl hdepth
    show (∃ w, s.encode allowed = .ok w) ↔ _
    simp [Scalar.encode_eq_ok_iff, ScalarKind.isJson, hpass, and_comm]
  | _ =>
    refine (h depth hdepth).trans (and_congr_left fun _ => ?_)
    exact iff_of_true (fun _ => nofun) (fun _ => nofun)

/-- **An array can be converted exactly if it can be rebuilt with all that is in it.** -/
theorem TypedArray.exists_encode_iff {a : TypedArray} (hkept : a.WellKept)
    (hitems : ∀ v ∈ a.toList, v.EncodesIffPasses) {depth : Depth} :
    (∃ out, a.encode depth = .ok out) ↔
      (Value.array a).EverywhereRebuilt Value.CanBeRebuilt ∧
        depth.HasRoom (Value.array a).rebuiltNesting := by
  rw [everywhereRebuilt_hasRoom_iff]
  constructor
  · rintro ⟨out, hout⟩
    obtain ⟨inner, henter, ws, hws, -⟩ := hkept.encode_eq_ok_iff.mp hout
    -- each element was converted, so each one passes: its own condition read backwards
    have hpass (v) (hv : v ∈ a.toList) : (∀ s, v = .scalar s →
        s.kind ≠ .byte ∧ a.elementType.isJsonCompatible = true) ∧ v.PassesInside inner := by
      obtain ⟨w, -, hw⟩ := exists_right_of_mem hws hv
      exact ((hitems v hv).element (Depth.current_le_of_enter henter)).mp ⟨w, hw⟩
    exact ⟨fun s hs => (hpass _ hs).1 s rfl, inner, henter, fun v hv => (hpass v hv).2⟩
  · rintro ⟨hscalars, inner, henter, hpass⟩
    -- the elements converted one by one are the elements of the result, since the array is well
    -- kept
    have hconvert (v) (hv : v ∈ a.toList) :
        ∃ w, v.encodeElement a.elementType.isJsonCompatible inner = .ok w := by
      refine ((hitems v hv).element (Depth.current_le_of_enter henter)).mpr ⟨?_, hpass v hv⟩
      rintro s rfl
      exact hscalars s hv
    obtain ⟨ws, hws⟩ := exists_forall₂ hconvert
    exact ⟨_, hkept.encode_eq_ok_iff.mpr ⟨inner, henter, ws, hws, rfl⟩⟩

/-- What was converted is accepted by every JSON object that is not frozen. -/
theorem TypedMap.Building.put_of_encodeEntry {object : TypedMap} (hobject : object.Building .json)
    {key : String} {v w : Value} {depth : Depth} (h : v.encodeEntry .json depth = .ok w) :
    ∃ after, object.put key w = .ok after := by
  refine hobject.put_of_accepted ?_
  exact (rejection?_json hobject.ty).mpr (Value.admits_json_of_encodeEntry h)

/-- Inside a container only JSON objects, maps and records are converted. -/
theorem TypedMap.isMapping_of_encode {m : TypedMap} {target : Ty} {depth : Depth} {w : Value}
    (h : m.encode target depth = .ok w) : m.ty.isMapping = true := by
  rw [encode_eq] at h
  cases hty : m.ty <;> rw [hty] at h <;> first | rfl | cases h

/-- The loop of a JSON object goes through exactly if all entries are converted: no put fails. -/
theorem TypedMap.Building.exists_collect_iff {object : TypedMap} (hobject : object.Building .json)
    {es : List (String × Value)} {depth : Depth} :
    (∃ out, collect (·.encodeEntry .json depth) es object = .ok out) ↔
      ∀ e ∈ es, ∃ w, e.2.encodeEntry .json depth = .ok w := by
  -- the object under construction changes with each entry; that it takes every encoded entry is the
  -- invariant `Building`
  induction es generalizing object with
  | nil => exact iff_of_true ⟨object, rfl⟩ (List.forall_mem_nil _)
  | cons e rest ih =>
    rw [List.forall_mem_cons]
    unfold collect
    rw [List.foldlM_cons]
    constructor
    · rintro ⟨out, hout⟩
      obtain ⟨next, hnext, hrest⟩ := bind_eq_ok_iff.mp hout
      obtain ⟨w, hw, -⟩ := store_eq_ok_iff.mp hnext
      exact ⟨⟨w, hw⟩, (ih (hobject.store hnext)).mp ⟨out, hrest⟩⟩
    · rintro ⟨⟨w, hw⟩, hrest⟩
      obtain ⟨next, hput⟩ := hobject.put_of_encodeEntry hw
      have hnext : object.store e.1 (e.2.encodeEntry .json depth) = .ok next :=
        store_eq_ok_iff.mpr ⟨w, hw, hput⟩
      obtain ⟨out, hout⟩ := (ih (hobject.store hnext)).mpr hrest
      exact ⟨out, bind_eq_ok_iff.mpr ⟨next, hnext, hout⟩⟩

/-- A map is rebuilt exactly if there is room for it and all its entries are converted. -/
theorem TypedMap.exists_rebuild_iff_entries {m : TypedMap} {depth : Depth} :
    (∃ out, m.rebuild .json depth = .ok out) ↔
      ∃ inner, depth.enter = .ok inner ∧
        ∀ e ∈ m.entries, ∃ w, e.2.encodeEntry .json inner = .ok w := by
  simp only [rebuild_eq, bind_eq_ok_iff]
  rw [exists_comm]
  refine exists_congr fun inner => ?_
  rw [exists_and_left, (Building.ofEmpty .json).exists_collect_iff]

/-- **A map can be rebuilt exactly if all that is in it can be.** -/
theorem TypedMap.exists_rebuild_iff {m : TypedMap} (hmapping : m.ty.isMapping = true)
    (hentries : ∀ e ∈ m.entries, e.2.EncodesIffPasses) {depth : Depth} :
    (∃ out, m.rebuild .json depth = .ok out) ↔
      (Value.map m).EverywhereRebuilt Value.CanBeRebuilt ∧
        depth.HasRoom (Value.map m).rebuiltNesting := by
  rw [exists_rebuild_iff_entries, everywhereRebuilt_hasRoom_iff]
  constructor
  · rintro ⟨inner, henter, hconvert⟩
    have hpass (e) (he : e ∈ m.entries) :=
      (hentries e he inner (Depth.current_le_of_enter henter)).mp (hconvert e he)
    exact ⟨⟨hmapping, fun e he => (hpass e he).1⟩, inner, henter, fun e he => (hpass e he).2⟩
  · rintro ⟨⟨-, hbytes⟩, inner, henter, hpass⟩
    refine ⟨inner, henter, fun e he => ?_⟩
    exact (hentries e he inner (Depth.current_le_of_enter henter)).mpr ⟨hbytes e he, hpass e he⟩

/-! ## All containers -/

/-- **What lies inside a container is converted exactly if it is no byte and passes.** -/
theorem Value.WellBuilt.encodesIffPasses {v : Value} (hwell : v.WellBuilt) :
    v.EncodesIffPasses := by
  induction v with
  | null =>
    intro depth hdepth
    have hpass : Value.null.PassesInside depth := passesInside_of_empty rfl trivial rfl hdepth
    exact iff_of_true ⟨.null, rfl⟩ ⟨fun _ => nofun, hpass⟩
  | scalar s =>
    intro depth hdepth
    have hpass : (Value.scalar s).PassesInside depth :=
      passesInside_of_empty rfl trivial rfl hdepth
    show (∃ w, s.encode true = .ok w) ↔ _
    cases s <;> simp [Scalar.encode_eq_ok_iff, ScalarKind.isJson, Scalar.kind, hpass]
  | array a ih =>
    intro depth hdepth
    obtain ⟨hkept, hitems⟩ := everywhere_array.mp hwell
    have hobject : ¬ (Value.array a).IsJsonObject := id
    show (∃ w, (a.encode depth).map Value.array = .ok w) ↔ _
    rw [exists_map_eq_ok_iff, passesInside_iff hobject,
      TypedArray.exists_encode_iff hkept fun v hv => ih v hv (hitems v hv)]
    simp
  | map m ih =>
    intro depth hdepth
    by_cases hobject : (Value.map m).IsJsonObject
    · -- an object is passed on, whatever is in it
      have hroom : depth.HasRoom (Value.map m).rebuiltInside := by
        rw [TypedMap.rebuiltInside_of_json hobject]
        exact hdepth
      refine iff_of_true ⟨_, TypedMap.encodeEntry_object hobject .json depth⟩ ⟨fun _ => nofun, ?_⟩
      exact ⟨fun hno => absurd hobject hno, hroom⟩
    · obtain ⟨-, hentries⟩ := everywhere_map.mp hwell
      have hjson : m.ty.isJson = false := by
        rw [Bool.eq_false_iff]
        exact fun h => hobject (Ty.eq_json_of_isJson h)
      rw [passesInside_iff hobject]
      by_cases hmapping : m.ty.isMapping = true
      · rw [TypedMap.encodeEntry_eq_rebuild hmapping hjson, exists_map_eq_ok_iff,
          TypedMap.exists_rebuild_iff hmapping fun e he => ih e he (hentries e he)]
        simp
      · refine iff_of_false (fun ⟨w, hw⟩ => hmapping (TypedMap.isMapping_of_encode hw)) ?_
        rintro ⟨-, hrebuilt, -⟩
        exact hmapping (hrebuilt _ (.self _)).1

/-! ## Entry points -/

theorem Depth.hasRoom_root {limit n : Nat} : (Depth.root limit).HasRoom n ↔ n ≤ limit := by
  show 0 + n ≤ limit ↔ n ≤ limit
  omega

/-- **What can be converted to JSON under a limit.** A map or an array that is well built, as all
are that a program gets hold of, is converted exactly if every container in it that is rebuilt can
be, and they are not nested deeper than the limit. A JSON object that is built refuses nothing that
was converted. -/
theorem encode_succeeds_iff (limit : Nat) :
    (∀ m : TypedMap, (Value.map m).WellBuilt → m.ty.isMapping = true →
      ((∃ out, (Value.map m).encodeRecord (.root limit) = .ok out) ↔
        (Value.map m).IsEncodable limit)) ∧
    (∀ a : TypedArray, (Value.array a).WellBuilt →
      ((∃ out, a.encode (.root limit) = .ok out) ↔ (Value.array a).IsEncodable limit)) ∧
    ∀ (v w : Value) (depth : Depth), v.encodeEntry .json depth = .ok w →
      ∀ (object : TypedMap) (key : String), object.ty = .json → object.frozen = false →
        ∃ after, object.put key w = .ok after := by
  have hencodable (v : Value) : v.IsEncodable limit ↔
      v.EverywhereRebuilt Value.CanBeRebuilt ∧ (Depth.root limit).HasRoom v.rebuiltNesting := by
    rw [Depth.hasRoom_root]
    exact ⟨fun h => ⟨h.rebuilt, h.nesting⟩, fun h => ⟨h.1, h.2⟩⟩
  refine ⟨fun m hwell hmapping => ?_, fun a hwell => ?_, ?_⟩
  · -- The root of `encodeRecord` is rebuilt even where it is a JSON object, hence no case for it.
    obtain ⟨-, hentries⟩ := Value.everywhere_map.mp hwell
    have hrecord : (Value.map m).encodeRecord (.root limit) = m.rebuild .json (.root limit) :=
      if_pos hmapping
    rw [hrecord, hencodable]
    exact TypedMap.exists_rebuild_iff hmapping fun e he =>
      Value.WellBuilt.encodesIffPasses (hentries e he)
  · obtain ⟨hkept, hitems⟩ := Value.everywhere_array.mp hwell
    rw [hencodable]
    exact TypedArray.exists_encode_iff hkept fun v hv =>
      Value.WellBuilt.encodesIffPasses (hitems v hv)
  · intro v w depth h object key hty hthawed
    have hobject : object.Building .json := ⟨hty, hthawed⟩
    exact hobject.put_of_encodeEntry h

/-- An album: an object with a byte in it, and pages in an array of anything. -/
def TypedMap.album : TypedMap :=
  ⟨.openMap, [("cover", .map ⟨.json, [("size", .byte 7)], false⟩),
    ("pages", .array (.ofBoxed .any [.null, .array (.ofBoxed .json [.int 1])]))], false⟩

/-- The album is three containers deep. Neither the object nor the byte in it counts. -/
theorem encode_succeeds_iff_album :
    (Value.map .album).IsEncodable 3 ∧ ¬ (Value.map .album).IsEncodable 2 := by
  have hcover : (TypedMap.mk .json [("size", .byte 7)] false).rejection? "size" (.byte 7) = none :=
    rfl
  have hpages (vs : List Value) : (⟨.any, .boxed vs, false⟩ : TypedArray).WellKept :=
    ⟨trivial, fun _ _ => rfl, fun _ _ => trivial⟩
  have hpage : (⟨.json, .boxed [.int 1], false⟩ : TypedArray).WellKept :=
    ⟨trivial, List.forall_mem_singleton.mpr rfl, List.forall_mem_singleton.mpr trivial⟩
  have halbum : (Value.map .album).WellKept := fun _ _ => rfl
  have hwell : (Value.map .album).WellBuilt := by
    refine Value.everywhere_map.mpr ⟨halbum, ?_⟩
    simp [TypedMap.album, TypedArray.ofBoxed, TypedArray.toList, Storage.toList, hcover, hpages,
      hpage, Value.WellKept]
  constructor
  · have hconverted : ∃ out, (Value.map .album).encodeRecord (.root 3) = .ok out := ⟨_, rfl⟩
    exact ((encode_succeeds_iff 3).1 _ hwell rfl).mp hconverted
  · intro h
    obtain ⟨out, hout⟩ := ((encode_succeeds_iff 2).1 _ hwell rfl).mpr h
    cases hout

end TypedJson
