import TypedJson.Proofs.Filling
import TypedJson.Proofs.PureJson

/-!
# TypedJson — conversions that take a shortcut

In general a container is converted part by part. Each element or entry is converted and then
written to the container that is built, and a failure is labelled with its place. Some containers
take a shorter way: arrays of scalars are built without labels, arrays of `any` are copied, and so
are the values of maps of `any` and of `json`. On the way to JSON some arrays of scalars are copied.

None of this can be seen, except in the wording of an error.

* **`StopsAt`** — the position where a loop fails;
* **`foldlM_sideBySide`** — two loops that do the same step by step succeed together, and fail at
  the same position;
* **`TypedArray.decodeEach`**, **`TypedMap.decodeEach`**, **`TypedArray.encodeEach`** — the general
  way;
* **`shortcuts_agree`** — each shortcut does what the general way does.
-/

namespace TypedJson

/-! ## Where a loop fails -/

section

variable {ε α β σ : Type}

/-- A loop over the list fails at position `i`. It gets through the elements before, but not through
this one, and so not through the list. -/
structure StopsAt (run : List α → Except ε σ) (xs : List α) (i : Nat) (e : ε) : Prop where
  before : ∃ s, run (xs.take i) = .ok s
  here : run (xs.take (i + 1)) = .error e
  whole : run xs = .error e

variable {step : σ → α → Except ε σ} {s next : σ} {x : α} {xs : List α} {i : Nat} {e : ε}

theorem foldlM_cons_of_ok (h : step s x = .ok next) (xs : List α) :
    (x :: xs).foldlM step s = xs.foldlM step next := by
  rw [List.foldlM_cons, h]
  rfl

theorem foldlM_cons_of_error (h : step s x = .error e) (xs : List α) :
    (x :: xs).foldlM step s = .error e := by
  rw [List.foldlM_cons, h]
  rfl

namespace StopsAt

theorem head (h : step s x = .error e) : StopsAt (·.foldlM step s) (x :: xs) 0 e where
  before := ⟨s, rfl⟩
  here := foldlM_cons_of_error h []
  whole := foldlM_cons_of_error h xs

/-- A loop whose first step succeeds stops one position later than the rest of it. -/
theorem cons (hnext : step s x = .ok next) (h : StopsAt (·.foldlM step next) xs i e) :
    StopsAt (·.foldlM step s) (x :: xs) (i + 1) e where
  before := by
    obtain ⟨last, hlast⟩ := h.before
    exact ⟨last, (foldlM_cons_of_ok hnext _).trans hlast⟩
  here := (foldlM_cons_of_ok hnext _).trans h.here
  whole := (foldlM_cons_of_ok hnext _).trans h.whole

/-- The same loop over other representations of the elements stops at the same position. -/
theorem congr {run : List α → Except ε σ} {run' : List β → Except ε σ} {ys : List β}
    (htake : ∀ j, run (xs.take j) = run' (ys.take j)) (hwhole : run xs = run' ys)
    (h : StopsAt run xs i e) : StopsAt run' ys i e where
  before := by simpa [htake] using h.before
  here := by simpa [htake] using h.here
  whole := by simpa [hwhole] using h.whole

end StopsAt

/-- **Two loops side by side.** If their steps come to the same or fail both, then so do the loops,
and they fail at the same element. -/
theorem foldlM_sideBySide {I : σ → Prop} {R : α → ε → ε → Prop} {step step' : σ → α → Except ε σ}
    {xs : List α}
    (hstep : ∀ x ∈ xs, ∀ s, I s →
      (∃ next, I next ∧ step s x = .ok next ∧ step' s x = .ok next) ∨
        ∃ e e', step s x = .error e ∧ step' s x = .error e' ∧ R x e e')
    {start : σ} (hstart : I start) :
    (∃ last, xs.foldlM step start = .ok last ∧ xs.foldlM step' start = .ok last) ∨
      ∃ i x e e', xs[i]? = some x ∧ R x e e' ∧
        StopsAt (·.foldlM step start) xs i e ∧ StopsAt (·.foldlM step' start) xs i e' := by
  -- both loops are in the same state as long as neither has failed; the invariant says what that
  -- state is like
  induction xs generalizing start with
  | nil => exact .inl ⟨start, rfl, rfl⟩
  | cons x xs ih =>
    rcases hstep x List.mem_cons_self start hstart with
      ⟨next, hkept, hnext, hnext'⟩ | ⟨e, e', he, he', hR⟩
    · rcases ih (fun y hy => hstep y (List.mem_cons_of_mem x hy)) hkept with
        ⟨last, hlast, hlast'⟩ | ⟨i, y, e, e', hy, hR, hstop, hstop'⟩
      · exact .inl ⟨last, (foldlM_cons_of_ok hnext xs).trans hlast,
          (foldlM_cons_of_ok hnext' xs).trans hlast'⟩
      · exact .inr ⟨i + 1, y, e, e', hy, hR, hstop.cons hnext, hstop'.cons hnext'⟩
    · exact .inr ⟨0, x, e, e', rfl, hR, .head he, .head he'⟩

end

/-! ## Arrays from JSON -/

namespace TypedArray

/-- The general way to convert an array: its elements one by one, each to the element type, appended
to an array that is empty at first. -/
def decodeEach (element : Ty) (depth : Depth) (source : TypedArray) : Except Error TypedArray :=
  depth.enter >>= fun inner =>
    collectLabelled (element.decode inner) 0 source.toList (.empty element)

theorem take_zipIdx {α : Type} (xs : List α) (n : Nat) : xs.zipIdx.take n = (xs.take n).zipIdx := by
  refine List.ext_getElem? fun i => ?_
  simp only [List.getElem?_take, List.getElem?_zipIdx]
  split <;> rfl

/-- **The loops with and without labels succeed together**, and fail at the same index. -/
theorem collect_sideBySide (convert : Value → Except Error Value) (vs : List Value)
    (out : TypedArray) :
    (∃ after, collect convert vs out = .ok after ∧ collectLabelled convert 0 vs out = .ok after) ∨
      ∃ i e, StopsAt (collect convert · out) vs i e ∧
        StopsAt (collectLabelled convert 0 · out) vs i (e.annotate ("[" ++ toString i ++ "]")) := by
  simp only [collect_eq_foldlM, collectLabelled_eq_foldlM]
  have hstep (p) (_ : p ∈ vs.zipIdx) (s : TypedArray) (_ : True) :
      (∃ next, True ∧ (convert p.1 >>= s.push) = .ok next ∧ s.store p.2 (convert p.1) = .ok next) ∨
        ∃ e e', (convert p.1 >>= s.push) = .error e ∧ s.store p.2 (convert p.1) = .error e' ∧
          e' = e.annotate ("[" ++ toString p.2 ++ "]") := by
    unfold store
    cases convert p.1 >>= s.push with
    | ok next => exact .inl ⟨next, trivial, rfl, rfl⟩
    | error e => exact .inr ⟨e, _, rfl, rfl, rfl⟩
  rcases foldlM_sideBySide hstep trivial with hboth | ⟨i, p, e, e', hp, rfl, hstop, hstop'⟩
  · exact .inl hboth
  · -- Positions are counted from 0, so the label is the index.
    have hindex : p.2 = i := by
      obtain ⟨v, -, rfl⟩ := Option.map_eq_some_iff.mp (List.getElem?_zipIdx ▸ hp)
      simp
    rw [hindex] at hstop'
    refine .inr ⟨i, e, hstop.congr (fun j => ?_) rfl, hstop'.congr (fun j => ?_) rfl⟩ <;>
      rw [take_zipIdx]

/-- Scalars are converted by the loop without labels, except for bytes. -/
theorem decode_scalar {k : ScalarKind} (hk : k ≠ .byte) (depth : Depth) (source : TypedArray) :
    decode (.scalar k) depth (.array source) = depth.enter >>= fun inner =>
      collect (k.decode inner) source.toList (.empty (.scalar k)) := by
  cases k with
  | byte => exact absurd rfl hk
  | _ => rfl

/-- Whatever is appended to an array of `any`, it is appended as it is. -/
theorem pushAll_any (xs vs : List Value) :
    (ofBoxed .any xs).pushAll vs = .ok (ofBoxed .any (xs ++ vs)) := by
  induction vs generalizing xs with
  | nil =>
    rw [List.append_nil]
    rfl
  | cons v rest ih =>
    have hpush : (ofBoxed .any xs).push v = .ok (ofBoxed .any (xs ++ [v])) := by
      simp [push_eq, set_eq, ofBoxed, size, toList, Storage.toList, Storage.write?, writeAt,
        Ty.admits, Ty.normalize]
    have hrest : (ofBoxed .any (xs ++ [v])).pushAll rest =
        .ok (ofBoxed .any (xs ++ v :: rest)) := by
      rw [ih, List.append_assoc]
      rfl
    exact (foldlM_cons_of_ok hpush rest).trans hrest

/-- An array of `any` is what appending the elements one by one gives. -/
theorem decode_any (depth : Depth) (source : TypedArray) :
    decode .any depth (.array source) =
      depth.enter >>= fun _ => ofList .any source.toList := by
  have hcopy : ofList .any source.toList = .ok (.ofBoxed .any source.toList) :=
    pushAll_any [] source.toList
  rw [hcopy]
  rfl

/-- **An array that is converted is what the general way gives**, whatever its element type is. -/
theorem decode_eq_ok_iff_decodeEach {element : Ty} {depth : Depth} {source out : TypedArray} :
    decode element depth (.array source) = .ok out ↔
      decodeEach element depth source = .ok out := by
  have hloop (h : decode element depth (.array source) = depth.enter >>= fun inner =>
      collect (element.decode inner) source.toList (.empty element)) :
      decode element depth (.array source) = .ok out ↔
        decodeEach element depth source = .ok out := by
    rw [h, decodeEach, bind_eq_ok_iff, bind_eq_ok_iff]
    exact exists_congr fun inner => and_congr_right fun _ => collectLabelled_eq_ok_iff.symm
  cases element with
  | scalar k =>
    by_cases hk : k = .byte
    · subst hk
      exact Iff.rfl
    · exact hloop (decode_scalar hk depth source)
  | any => exact hloop (decode_any depth source)
  | _ => exact Iff.rfl

/-- An array of scalars is converted as in the general way, but for the label of an error. -/
structure DecodesAsEach (k : ScalarKind) (depth : Depth) (source : TypedArray) : Prop where
  ok_iff : ∀ out, decode (.scalar k) depth (.array source) = .ok out ↔
    decodeEach (.scalar k) depth source = .ok out
  /-- The general way fails with the same error under the label, and at the same index, unless there
  is no room for the array at all. -/
  error : ∀ e, decode (.scalar k) depth (.array source) = .error e →
    ∃ e', decodeEach (.scalar k) depth source = .error e' ∧ e'.root = e.root ∧
      (depth.enter = .error e ∧ e' = e ∨
        ∃ inner i, depth.enter = .ok inner ∧
          StopsAt (collect (k.decode inner) · (.empty (.scalar k))) source.toList i e ∧
          StopsAt (collectLabelled ((Ty.scalar k).decode inner) 0 · (.empty (.scalar k)))
            source.toList i e' ∧
          e' = e.annotate ("[" ++ toString i ++ "]"))

/-- The loop of a scalar type differs from the generic one in the label of its error only. Bytes
have no loop of their own. -/
theorem decodesAsEach {k : ScalarKind} (hk : k ≠ .byte) (depth : Depth) (source : TypedArray) :
    DecodesAsEach k depth source where
  ok_iff _ := decode_eq_ok_iff_decodeEach
  error e h := by
    rw [decode_scalar hk] at h
    unfold decodeEach
    cases henter : depth.enter with
    | error e' =>
      rw [henter] at h
      cases h
      exact ⟨e, rfl, rfl, .inl ⟨rfl, rfl⟩⟩
    | ok inner =>
      rw [henter] at h
      replace h : collect (k.decode inner) source.toList (.empty (.scalar k)) = .error e := h
      -- the loops succeed together or stop at the same element; the first is impossible here
      rcases collect_sideBySide (k.decode inner) source.toList (.empty (.scalar k)) with
        ⟨after, hafter, -⟩ | ⟨i, e', hstop, hstop'⟩
      · cases hafter.symm.trans h
      · obtain rfl : e' = e := Except.error.inj (hstop.whole.symm.trans h)
        refine ⟨_, hstop'.whole, Error.root_annotate _ _, .inr ?_⟩
        exact ⟨inner, i, rfl, hstop, hstop', rfl⟩

end TypedArray

/-! ## Maps from JSON -/

/-- The general way to convert the values of a map: one by one, each to the constraint. -/
def TypedMap.decodeEach (constraint : Ty) (depth : Depth) (v : Value) : Except Error TypedMap :=
  decodeWith (some constraint) constraint.decode depth v

namespace TypedMap

/-- Where the constraint is `any` or `json`, the values are put as they are. -/
theorem decode_of_taken {t : Ty} (ht : t = .any ∨ t = .json) (depth : Depth) (v : Value) :
    decode (some t) depth v = decodeWith (some t) (fun _ => .ok) depth v := by
  rcases ht with rfl | rfl <;> rfl

/-- **The loops that convert the values and that do not succeed together**, and fail at the same
key. -/
theorem collect_sideBySide {t : Ty} (ht : t = .any ∨ t = .json) (depth : Depth)
    (es : List (String × Value)) {out : TypedMap} (hout : out.Building (.mapOf t)) :
    (∃ after, collect (fun v => .ok v) es out = .ok after ∧
        collect (t.decode depth) es out = .ok after) ∨
      ∃ i entry e e', es[i]? = some entry ∧ (e.field? = some entry.1 ∧ e'.field? = some entry.1) ∧
        StopsAt (collect (fun v => .ok v) · out) es i e ∧
        StopsAt (collect (t.decode depth) · out) es i e' := by
  apply foldlM_sideBySide (I := fun out : TypedMap => out.Building (.mapOf t)) _ hout
  intro entry _ s hs
  cases hadmits : t.admits entry.2 with
  | true =>
    have hdecode : t.decode depth entry.2 = .ok entry.2 := by
      rcases ht with rfl | rfl
      · rfl
      · exact if_pos hadmits
    have haccepted : s.rejection? entry.1 entry.2 = none := (rejection?_mapOf hs.ty).mpr hadmits
    obtain ⟨next, hput⟩ := hs.put_of_accepted haccepted
    exact .inl ⟨next, hs.put hput, store_eq_ok_iff.mpr ⟨_, rfl, hput⟩,
      store_eq_ok_iff.mpr ⟨_, hdecode, hput⟩⟩
  | false =>
    -- what the put rejects, the conversion has rejected before
    have hput : s.put entry.1 entry.2 = .error (.inherentType t.name entry.2.typeName) := by
      refine hs.put_of_rejected ?_
      simp [rejection?, empty, hadmits]
    have hdecode : t.decode depth entry.2 = .error (.incompatible t.name entry.2.typeName) := by
      rcases ht with rfl | rfl
      · cases hadmits
      · exact if_neg (Bool.eq_false_iff.mp hadmits)
    refine .inr ⟨.inField entry.1 (.inherentType t.name entry.2.typeName),
      .inField entry.1 (.incompatible t.name entry.2.typeName), ?_, ?_, rfl, rfl⟩
    · show (s.put entry.1 entry.2).mapError _ = _
      rw [hput]
      rfl
    · show (t.decode depth entry.2 >>= s.put entry.1).mapError _ = _
      rw [hdecode]
      rfl

end TypedMap

/-- A map is converted as in the general way, but for the error. -/
structure TypedMap.DecodesAsEach (t : Ty) (depth : Depth) (v : Value) : Prop where
  ok_iff : ∀ out, decode (some t) depth v = .ok out ↔ decodeEach t depth v = .ok out
  /-- The general way fails at the same key, or before any key with the same error. -/
  error : ∀ e, decode (some t) depth v = .error e → ∃ e', decodeEach t depth v = .error e' ∧
    ((v.asObject? = none ∨ depth.enter = .error e) ∧ e' = e ∨
      ∃ source inner i entry, v.asObject? = some source ∧ depth.enter = .ok inner ∧
        source.entries[i]? = some entry ∧
        StopsAt (collect (fun v => .ok v) · (.empty (.mapOf t))) source.entries i e ∧
        StopsAt (collect (t.decode inner) · (.empty (.mapOf t))) source.entries i e' ∧
        e.field? = some entry.1 ∧ e'.field? = some entry.1)

/-- Both ways fail before they look at an entry, or they run their loops over the same entries. -/
theorem TypedMap.decodeEach_cases {t : Ty} (ht : t = .any ∨ t = .json) (depth : Depth) (v : Value) :
    (∃ e, (v.asObject? = none ∨ depth.enter = .error e) ∧
        decode (some t) depth v = .error e ∧ decodeEach t depth v = .error e) ∨
      ∃ source inner, v.asObject? = some source ∧ depth.enter = .ok inner ∧
        decode (some t) depth v = collect (fun v => .ok v) source.entries (.empty (.mapOf t)) ∧
        decodeEach t depth v = collect (t.decode inner) source.entries (.empty (.mapOf t)) := by
  rw [decode_of_taken ht]
  unfold decodeEach decodeWith
  cases v.asObject? with
  | none => exact .inl ⟨_, .inl rfl, rfl, rfl⟩
  | some source =>
    cases depth.enter with
    | error e => exact .inl ⟨e, .inr rfl, rfl, rfl⟩
    | ok inner => exact .inr ⟨source, inner, rfl, rfl, rfl, rfl⟩

/-- Copying the entries and letting `put` check them differs from converting each of them in the
error only, and there in nothing but what is below the key. -/
theorem TypedMap.decodesAsEach {t : Ty} (ht : t = .any ∨ t = .json) (depth : Depth) (v : Value) :
    DecodesAsEach t depth v := by
  rcases decodeEach_cases ht depth v with
    ⟨e, hearly, hdecode, heach⟩ | ⟨source, inner, hsource, henter, hdecode, heach⟩
  · -- Neither got to the entries: the value is no object or the limit is reached.
    refine ⟨fun out => by rw [hdecode, heach], fun e' h => ⟨e, heach, ?_⟩⟩
    obtain rfl : e = e' := Except.error.inj (hdecode.symm.trans h)
    exact .inl ⟨hearly, rfl⟩
  · rcases collect_sideBySide ht inner source.entries (.ofEmpty (.mapOf t)) with
      ⟨after, hafter, hafter'⟩ | ⟨i, entry, e, e', hentry, hkeys, hstop, hstop'⟩
    · refine ⟨fun out => by rw [hdecode, heach, hafter, hafter'], fun e h => ?_⟩
      cases hafter.symm.trans (hdecode.symm.trans h)
    · refine ⟨fun out => ?_, fun err h => ⟨e', heach.trans hstop'.whole, ?_⟩⟩
      · -- Neither succeeds.
        rw [hdecode, heach, hstop.whole, hstop'.whole]
        exact iff_of_false nofun nofun
      · obtain rfl : e = err := Except.error.inj (hstop.whole.symm.trans (hdecode.symm.trans h))
        exact .inr ⟨source, inner, i, entry, hsource, henter, hentry, hstop, hstop', hkeys⟩

/-! ## To JSON -/

/-- The general way to convert an array to JSON: its elements one by one. -/
def TypedArray.encodeEach (a : TypedArray) (depth : Depth) : Except Error TypedArray :=
  depth.enter >>= fun inner =>
    a.toList.mapM (·.encodeElement a.elementType.isJsonCompatible inner) >>= fun ws =>
      .ok (.ofBoxed .json ws)

/-! ## The shortcuts -/

/-- **No shortcut can be seen, except in the wording of an error.** Arrays of integers, floats,
decimals, strings and booleans and maps of `any` and of `json` come out as the general way makes
them, and fail where it does. An array of `any` is what appending the elements one by one gives. To
JSON a well-kept array is converted as if one element after the other. -/
theorem shortcuts_agree (depth : Depth) :
    (∀ (k : ScalarKind) (source : TypedArray), k ≠ .byte →
      TypedArray.DecodesAsEach k depth source) ∧
    (∀ source : TypedArray, TypedArray.decode .any depth (.array source) =
      depth.enter >>= fun _ => TypedArray.ofList .any source.toList) ∧
    (∀ (t : Ty) (v : Value), t = .any ∨ t = .json → TypedMap.DecodesAsEach t depth v) ∧
    ∀ a : TypedArray, a.WellKept → a.encode depth = a.encodeEach depth := by
  refine ⟨fun k source hk => TypedArray.decodesAsEach hk depth source, TypedArray.decode_any depth,
    fun t v ht => TypedMap.decodesAsEach ht depth v, fun a hkept => ?_⟩
  exact TypedArray.encode_eq_loop hkept.admitted
    (fun v hv => Ty.normalize_of_isCanonical (hkept.canonical v hv)) depth

/-- Numbers and a text, to be converted to integers. -/
def TypedArray.mixed : TypedArray := .ofBoxed .json [.int 1, .int 2, .string "3"]

/-- An object that is no map of JSON, because of one of its values. -/
def TypedMap.mixed : TypedMap := ⟨.openMap, [("a", .int 1), ("b", .map (.empty .openMap))], false⟩

/-- A text among integers and a map that is not JSON among JSON values: the generic loops fail with
the same root and at the same key. -/
theorem shortcuts_agree_mixed :
    (∃ e, TypedArray.decodeEach .int (.root 1) .mixed = .error e ∧
      e.root = .notCastable "int" "string") ∧
    (∃ e, TypedMap.decodeEach .json (.root 1) (.map .mixed) = .error e ∧ e.field? = some "b") ∧
    TypedArray.encode ⟨.int, .packed (.ints [1, 2]), false⟩ (.root 1) =
      TypedArray.encodeEach ⟨.int, .packed (.ints [1, 2]), false⟩ (.root 1) := by
  obtain ⟨hscalars, -, hmaps, hencode⟩ := shortcuts_agree (.root 1)
  refine ⟨?_, ?_, hencode _ (TypedArray.wellKept_ints [1, 2])⟩
  · have hfail : TypedArray.decode .int (.root 1) (.array .mixed) =
        .error (.notCastable "int" "string") := rfl
    obtain ⟨e, he, hroot, -⟩ := (hscalars .int .mixed (by decide)).error _ hfail
    exact ⟨e, he, hroot⟩
  · have hfail : TypedMap.decode (some .json) (.root 1) (.map .mixed) =
        .error (.inField "b" (.inherentType "json" "map")) := rfl
    obtain ⟨e, he, ⟨-, rfl⟩ | ⟨_, _, _, entry, -, -, -, -, -, hkey, hkey'⟩⟩ :=
      (hmaps .json (.map .mixed) (.inr rfl)).error _ hfail
    · exact ⟨_, he, rfl⟩
    · exact ⟨e, he, hkey'.trans hkey.symm⟩

end TypedJson
