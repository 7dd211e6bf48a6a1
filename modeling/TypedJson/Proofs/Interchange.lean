import TypedJson.Proofs.FiniteFloats
import TypedJson.Proofs.KeptByCalls

/-!
# TypedJson — documents in and out

A document is read into a value and a value is written as a document, by two recursions that do not
know of each other.

* **`Json.asRead`** — what a document is read as: itself, but for integers beyond the signed range;
* **`Json.toJson_toValue`** — a document comes out as it was read;
* **`Json.asRead_of_toJson`** — and what came out of any value is read as it is;
* **`Value.scalars`** — the scalars of a value in the order of traversal, of which the first one
  without a document decides that the value has none;
* **`interchange_roundTrip`** — all of it together.
-/

namespace TypedJson

/-! ## What a document is read as -/

/-- The integers of documents are small enough for a finite float. -/
theorem JsonNumber.isFinite_ofInt {n : Int} (least : -0x8000000000000000 ≤ n)
    (most : n < 0x10000000000000000) : (Binary64.ofInt n).isFinite = true :=
  Binary64.isFinite_ofInt (by omega)

/-- The number that a number is read as. Integers beyond the signed range are read as floats. -/
def JsonNumber.asRead : JsonNumber → JsonNumber
  | .int n least most =>
    if n < 0x8000000000000000 then .int n least most
    else .float (.ofInt n) (isFinite_ofInt least most)
  | .float x finite => .float x finite

mutual

/-- What a document is read as. Only numbers can differ. -/
def Json.asRead : Json → Json
  | .null => .null
  | .bool b => .bool b
  | .number n => .number n.asRead
  | .string s => .string s
  | .array items => .array (Json.allAsRead items)
  | .object entries => .object (Json.entriesAsRead entries)
termination_by structural j => j

def Json.allAsRead : List Json → List Json
  | [] => []
  | item :: rest => item.asRead :: Json.allAsRead rest
termination_by structural items => items

def Json.entriesAsRead : List (String × Json) → List (String × Json)
  | [] => []
  | (key, item) :: rest => (key, item.asRead) :: Json.entriesAsRead rest
termination_by structural entries => entries

end

theorem Json.allAsRead_eq_map (items : List Json) : Json.allAsRead items = items.map asRead := by
  induction items with
  | nil => rfl
  | cons item rest ih => rw [Json.allAsRead, ih, List.map_cons]

theorem Json.entriesAsRead_eq_map (entries : List (String × Json)) :
    Json.entriesAsRead entries = entries.map fun e => (e.1, e.2.asRead) := by
  induction entries with
  | nil => rfl
  | cons e rest ih => rw [Json.entriesAsRead, ih, List.map_cons]

/-! ## From a document to a document -/

/-- A loop of conversions that all succeed. -/
theorem mapM_eq_ok_map {ε α β : Type} {f : α → Except ε β} {g : α → β} {xs : List α}
    (h : ∀ x ∈ xs, f x = .ok (g x)) : xs.mapM f = .ok (xs.map g) := by
  rw [mapM_eq_ok_iff, List.forall₂_map_right_iff, List.forall₂_same]
  exact h

/-- A number of a document is written as it was read; an integer too large for 64 signed bits has
become a float on the way. -/
theorem JsonNumber.toJson_toScalar (n : JsonNumber) :
    n.toScalar.toJson = .ok (.number n.asRead) := by
  cases n with
  | int n least most =>
    by_cases hsigned : n < 0x8000000000000000
    · have hsame : (Int64.ofInt n).toInt = n := Int64.toInt_ofInt_of_le least hsigned
      simp [toScalar, asRead, hsigned, Scalar.toJson, ofInt64, hsame]
    · -- An unsigned 64-bit integer is far below the largest float.
      have hfinite : (Binary64.ofInt n).isFinite = true := isFinite_ofInt least most
      simp [toScalar, asRead, hsigned, Scalar.toJson, ofFloat?, hfinite]
  | float x finite => simp [toScalar, asRead, Scalar.toJson, ofFloat?, finite]

/-- **A document comes out as it was read**, keys and elements in order. -/
theorem Json.toJson_toValue (j : Json) : j.toValue.toJson = .ok j.asRead := by
  induction j with
  | null => rfl
  | bool b => rfl
  | number n => exact n.toJson_toScalar
  | string s => rfl
  -- the two recursions go through the same containers, so each step is a loop of steps that succeed
  | array items ih =>
    have hitems : (items.map toValue).mapM Value.toJson = .ok (items.map asRead) := by
      rw [List.mapM_map]
      exact mapM_eq_ok_map ih
    rw [toValue, toValues_eq_map, Value.toJson_array]
    show ((items.map toValue).mapM Value.toJson).map Json.array = _
    rw [hitems, asRead, allAsRead_eq_map]
    rfl
  | object entries ih =>
    have hentries : (entries.map fun e => (e.1, e.2.toValue)).mapM Value.entryToJson =
        .ok (entries.map fun e => (e.1, e.2.asRead)) := by
      rw [List.mapM_map]
      refine mapM_eq_ok_map fun e he => ?_
      show e.2.toValue.toJson.map _ = _
      rw [ih e he]
      rfl
    rw [toValue, toEntries_eq_map, Value.toJson_map]
    show ((entries.map fun e => (e.1, e.2.toValue)).mapM Value.entryToJson).map Json.object = _
    rw [hentries, asRead, entriesAsRead_eq_map]
    rfl

/-! ## From a value to a document -/

theorem JsonNumber.asRead_int {n : Int} {least : -0x8000000000000000 ≤ n}
    {most : n < 0x10000000000000000} (h : n < 0x8000000000000000) :
    (JsonNumber.int n least most).asRead = .int n least most := by
  simp only [asRead, h, if_true]

theorem JsonNumber.asRead_of_ofFloat? {x : Binary64} {n : JsonNumber} (h : ofFloat? x = some n) :
    n.asRead = n := by
  unfold ofFloat? at h
  split at h <;> cases h
  rfl

/-- The integers that are written are read as integers. -/
theorem Scalar.asRead_of_toJson {s : Scalar} {j : Json} (h : s.toJson = .ok j) : j.asRead = j := by
  have hfloat {x : Binary64} {n : JsonNumber} (hx : JsonNumber.ofFloat? x = some n) :
      (Json.number n).asRead = .number n :=
    congrArg Json.number (JsonNumber.asRead_of_ofFloat? hx)
  cases s with
  -- integers of values are signed, so none is beyond the signed range
  | int i =>
    cases h
    have hlt := i.toInt_lt
    exact congrArg Json.number (JsonNumber.asRead_int (by omega))
  | byte b =>
    cases h
    have hlt := b.toNat_lt
    exact congrArg Json.number (JsonNumber.asRead_int (by omega))
  | float | decimal =>
    simp only [toJson] at h
    split at h <;> cases h
    rename_i hx
    exact hfloat hx
  | string s =>
    cases h
    rfl
  | boolean b =>
    cases h
    rfl

/-- **What came out of a value is read as it is.** -/
theorem Json.asRead_of_toJson {v : Value} {j : Json} (h : v.toJson = .ok j) : j.asRead = j := by
  -- on the value: the document has its shape
  induction v generalizing j with
  | null =>
    cases h
    rfl
  | scalar s => exact Scalar.asRead_of_toJson h
  | array a ih =>
    rw [Value.toJson_array] at h
    obtain ⟨items, hitems, rfl⟩ := map_eq_ok_iff.mp h
    have hsame : items.map asRead = items.map id := by
      refine List.map_congr_left fun item hitem => ?_
      obtain ⟨v, hv, hitem⟩ := exists_mem_of_mapM hitems hitem
      exact ih v hv hitem
    rw [asRead, allAsRead_eq_map, hsame, List.map_id]
  | map m ih =>
    rw [Value.toJson_map] at h
    obtain ⟨entries, hentries, rfl⟩ := map_eq_ok_iff.mp h
    -- keys are written as they are; only the values could have changed
    have hsame : (entries.map fun e => (e.1, e.2.asRead)) = entries.map id := by
      refine List.map_congr_left fun entry hentry => ?_
      obtain ⟨e, he, hitem⟩ := exists_mem_of_mapM hentries hentry
      obtain ⟨item, hdocument, rfl⟩ := map_eq_ok_iff.mp hitem
      rw [ih e he hdocument]
      rfl
    rw [asRead, entriesAsRead_eq_map, hsame, List.map_id]

/-! ## Values without a document -/

mutual

/-- The scalars of a value in the order of traversal. -/
def Value.scalars : Value → List Scalar
  | .null => []
  | .scalar s => [s]
  | .array a => a.scalars
  | .map m => m.scalars
termination_by structural v => v

def TypedArray.scalars : TypedArray → List Scalar
  | ⟨_, storage, _⟩ => storage.scalars
termination_by structural a => a

def Storage.scalars : Storage → List Scalar
  | .packed column => column.toScalars
  | .boxed elements => Value.allScalars elements
termination_by structural s => s

def TypedMap.scalars : TypedMap → List Scalar
  | ⟨_, entries, _⟩ => Value.entryScalars entries
termination_by structural m => m

def Value.allScalars : List Value → List Scalar
  | [] => []
  | v :: rest => v.scalars ++ Value.allScalars rest
termination_by structural vs => vs

def Value.entryScalars : List (String × Value) → List Scalar
  | [] => []
  | (_, v) :: rest => v.scalars ++ Value.entryScalars rest
termination_by structural es => es

end

theorem Value.allScalars_eq_flatMap (vs : List Value) :
    Value.allScalars vs = vs.flatMap scalars := by
  induction vs with
  | nil => rfl
  | cons v rest ih => rw [Value.allScalars, ih, List.flatMap_cons]

theorem Value.entryScalars_eq_flatMap (es : List (String × Value)) :
    Value.entryScalars es = es.flatMap (·.2.scalars) := by
  induction es with
  | nil => rfl
  | cons e rest ih => rw [Value.entryScalars, ih, List.flatMap_cons]

/-- The scalars of an array are those of its elements, in order; packed elements are scalars
themselves. -/
theorem Value.scalars_array (a : TypedArray) :
    (Value.array a).scalars = a.toList.flatMap scalars := by
  obtain ⟨elementType, storage, frozen⟩ := a
  rw [scalars, TypedArray.scalars]
  cases storage with
  | packed column =>
    show column.toScalars = (column.toScalars.map Value.scalar).flatMap scalars
    rw [List.flatMap_map]
    exact (List.flatMap_singleton' _).symm
  | boxed elements => exact allScalars_eq_flatMap elements

theorem Value.scalars_map (m : TypedMap) :
    (Value.map m).scalars = m.entries.flatMap (·.2.scalars) := by
  cases m
  exact entryScalars_eq_flatMap _

/-- These are the scalars at any depth. -/
theorem Value.mem_scalars_iff {v : Value} {s : Scalar} :
    s ∈ v.scalars ↔ (Value.scalar s).Inside v := by
  induction v with
  | null => exact iff_of_false (List.not_mem_nil) nofun
  | scalar t =>
    rw [scalars, List.mem_singleton]
    constructor
    · rintro rfl
      exact .self _
    · intro h
      cases h
      rfl
  | array a ih =>
    rw [scalars_array, List.mem_flatMap]
    constructor
    · rintro ⟨v, hv, hs⟩
      exact .element hv ((ih v hv).mp hs)
    · intro h
      cases h with
      | element hv h => exact ⟨_, hv, (ih _ hv).mpr h⟩
  | map m ih =>
    rw [scalars_map, List.mem_flatMap]
    constructor
    · rintro ⟨e, he, hs⟩
      exact .entry he ((ih e he).mp hs)
    · intro h
      cases h with
      | entry he h => exact ⟨_, he, (ih _ he).mpr h⟩

/-- Whether a scalar has a document: a float that is finite, a decimal whose float is finite, and
any other scalar. -/
def Scalar.hasDocument : Scalar → Bool
  | .float x => x.isFinite
  | .decimal d => d.toBinary64.isFinite
  | _ => true

/-- What a conversion comes to that looks at these scalars: the first one without a document makes
it fail, and without such a one it succeeds. -/
def DecidedBy {α : Type} (scalars : List Scalar) (outcome : Except Error α) : Prop :=
  match scalars.find? (!·.hasDocument) with
  | some s => outcome = .error (.incompatible "json" s.kind.name)
  | none => ∃ a, outcome = .ok a

namespace DecidedBy

variable {α β : Type} {scalars : List Scalar}

/-- A step that cannot fail leaves decided what decides the outcome. -/
theorem map {outcome : Except Error α} (h : DecidedBy scalars outcome) (f : α → β) :
    DecidedBy scalars (outcome.map f) := by
  unfold DecidedBy at h ⊢
  split at h
  · rw [h]
    rfl
  · obtain ⟨a, rfl⟩ := h
    exact ⟨f a, rfl⟩

/-- A loop is decided by what decides its steps, in order. -/
theorem mapM {f : α → Except Error β} {looked : α → List Scalar} {xs : List α}
    (h : ∀ x ∈ xs, DecidedBy (looked x) (f x)) : DecidedBy (xs.flatMap looked) (xs.mapM f) := by
  induction xs with
  | nil => exact ⟨[], rfl⟩
  | cons x xs ih =>
    have hhead := h x List.mem_cons_self
    have htail := ih fun y hy => h y (List.mem_cons_of_mem x hy)
    unfold DecidedBy at hhead htail ⊢
    rw [List.flatMap_cons, List.find?_append, List.mapM_cons]
    -- the first scalar without a document is in the head or, when the head has none, in the rest
    cases hfind : (looked x).find? (!·.hasDocument) with
    | some s =>
      rw [hfind] at hhead
      show _ = _
      rw [hhead]
      rfl
    | none =>
      rw [hfind] at hhead
      obtain ⟨y, hy⟩ := hhead
      rw [Option.none_or, hy]
      split at htail
      · rw [htail]
        rfl
      · obtain ⟨ys, hys⟩ := htail
        rw [hys]
        exact ⟨y :: ys, rfl⟩

/-- It fails exactly with the error of that scalar. -/
theorem eq_error_iff {outcome : Except Error α} (h : DecidedBy scalars outcome) {err : Error} :
    outcome = .error err ↔ ∃ s, scalars.find? (!·.hasDocument) = some s ∧
      err = .incompatible "json" s.kind.name := by
  unfold DecidedBy at h
  split at h
  · rename_i s hfind
    rw [h]
    constructor
    · intro herr
      exact ⟨s, hfind, (Except.error.inj herr).symm⟩
    · rintro ⟨t, ht, rfl⟩
      rw [Option.some.inj (ht.symm.trans hfind)]
  · rename_i hfind
    obtain ⟨a, rfl⟩ := h
    refine iff_of_false nofun ?_
    rintro ⟨s, hs, -⟩
    rw [hfind] at hs
    cases hs

end DecidedBy

/-- A scalar has a document or is the reason there is none: only a float or a decimal can have
none, and has one when its float is finite. -/
theorem Scalar.decidedBy_toJson (s : Scalar) : DecidedBy [s] s.toJson := by
  cases hdocument : s.hasDocument with
  | true =>
    have hfind : [s].find? (!·.hasDocument) = none := by simp [hdocument]
    rw [DecidedBy, hfind]
    cases s with
    | float x =>
      have hfinite : x.isFinite = true := hdocument
      simp [toJson, JsonNumber.ofFloat?, hfinite]
    | decimal d =>
      have hfinite : d.toBinary64.isFinite = true := hdocument
      simp [toJson, JsonNumber.ofFloat?, hfinite]
    | _ => exact ⟨_, rfl⟩
  | false =>
    have hfind : [s].find? (!·.hasDocument) = some s := by simp [hdocument]
    rw [DecidedBy, hfind]
    cases s with
    | float x =>
      have hinfinite : x.isFinite = false := hdocument
      simp [toJson, JsonNumber.ofFloat?, hinfinite]
    | decimal d =>
      have hinfinite : d.toBinary64.isFinite = false := hdocument
      simp [toJson, JsonNumber.ofFloat?, hinfinite]
    | _ => cases hdocument

/-- **The first scalar without a document decides.** -/
theorem Value.decidedBy_toJson (v : Value) : DecidedBy v.scalars v.toJson := by
  induction v with
  | null => exact ⟨.null, rfl⟩
  | scalar s => exact s.decidedBy_toJson
  | array a ih =>
    rw [scalars_array, toJson_array]
    exact (DecidedBy.mapM ih).map Json.array
  | map m ih =>
    rw [scalars_map, toJson_map]
    exact (DecidedBy.mapM fun e he => (ih e he).map fun item => (e.1, item)).map Json.object

/-! ## Both ways -/

/-- **Documents and values correspond.** A document that is read can be written, and what is written
is the document again, with integers beyond the signed range as the floats that they are read as.
What any value is written as, whatever its types, is read and written without any change. A value
has no document exactly when there is a float in it that is not finite, or a decimal whose float is
not, and the error is that of the first such scalar in the order of traversal. The value of a
document is JSON, and a conversion to `json` leaves it alone. -/
theorem interchange_roundTrip :
    (∀ j : Json, j.toValue.toJson = .ok j.asRead) ∧
    (∀ (v : Value) (j : Json), v.toJson = .ok j → j.toValue.toJson = .ok j) ∧
    (∀ v : Value, (∃ err, v.toJson = .error err) ↔
      ∃ s, (Value.scalar s).Inside v ∧ s.hasDocument = false) ∧
    (∀ (v : Value) (err : Error), v.toJson = .error err ↔
      ∃ s, v.scalars.find? (!·.hasDocument) = some s ∧ err = .incompatible "json" s.kind.name) ∧
    ∀ (j : Json) (limit : Nat), Ty.json.admits j.toValue = true ∧
      Ty.json.decode (.root limit) j.toValue = .ok j.toValue := by
  refine ⟨Json.toJson_toValue, ?_, ?_, fun v err => v.decidedBy_toJson.eq_error_iff, ?_⟩
  · intro v j h
    rw [Json.toJson_toValue, Json.asRead_of_toJson h]
  · intro v
    simp only [v.decidedBy_toJson.eq_error_iff]
    constructor
    · rintro ⟨err, s, hfind, -⟩
      refine ⟨s, Value.mem_scalars_iff.mp (List.mem_of_find?_eq_some hfind), ?_⟩
      simpa using List.find?_some hfind
    · rintro ⟨s, hs, hdocument⟩
      have hfound : (v.scalars.find? (!·.hasDocument)).isSome = true :=
        List.find?_isSome.mpr ⟨s, Value.mem_scalars_iff.mpr hs, by simp [hdocument]⟩
      -- some scalar has no document, so there is a first one and the error names it
      obtain ⟨first, hfind⟩ := Option.isSome_iff_exists.mp hfound
      exact ⟨_, first, hfind, rfl⟩
  · intro j limit
    have hadmits : Ty.json.admits j.toValue = true := j.admits_toValue
    exact ⟨hadmits, if_pos hadmits⟩

/-- Bytes come out as numbers, and numbers are read as integers. -/
theorem interchange_roundTrip_bytes :
    (Json.array [.number (.int 7 (by decide) (by decide))]).toValue.toJson =
      .ok (.array [.number (.int 7 (by decide) (by decide))]) := by
  have hbytes : (Value.array ⟨.byte, .packed (.bytes [7]), true⟩).toJson =
      .ok (.array [.number (.int 7 (by decide) (by decide))]) := rfl
  exact interchange_roundTrip.2.1 _ _ hbytes

end TypedJson
