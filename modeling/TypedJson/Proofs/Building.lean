import TypedJson.Proofs.Outcomes
import TypedJson.Proofs.Storage

/-!
# TypedJson — containers under construction

A conversion starts from an empty container and writes to it, so what it gives is of the type that
it started with and not frozen, and an array has a storage that fits. That is all that a write needs
besides a value that is admitted:

* **`TypedArray.Building`**, **`TypedMap.Building`** — what is known of a container being built;
* **`TypedArray.Building.push_of_admits`**, **`TypedMap.Building.put_of_accepted`** — its writes
  succeed;
* **`Value.admits_json_of_encodeElement`** — a converted element is JSON, so an array of `json` may
  hold it without a check.
-/

namespace TypedJson

/-- An array that is being built with elements of type `t`. -/
structure TypedArray.Building (t : Ty) (out : TypedArray) : Prop where
  elementType : out.elementType = t
  thawed : out.frozen = false
  fits : out.storage.Fits t

/-- A map of type `t` that is being built. -/
structure TypedMap.Building (t : Ty) (out : TypedMap) : Prop where
  ty : out.ty = t
  thawed : out.frozen = false

namespace TypedArray.Building

variable {t : Ty} {out after : TypedArray} {v : Value}

theorem ofEmpty (t : Ty) : (TypedArray.empty t).Building t := ⟨rfl, rfl, fits_empty t⟩

/-- An array under construction stays one: it keeps its type, is not frozen and has a storage that
fits. -/
theorem push (hout : out.Building t) (h : out.push v = .ok after) : after.Building t := by
  obtain ⟨helement, hthawed, hfits⟩ := hout
  -- the fit is about the type of the array, which is that of the array before
  have hafter : after.storage.Fits after.elementType := fits_of_set (helement ▸ hfits) h
  obtain ⟨-, -, -, -, htype, hfrozen, -⟩ := set_eq_ok h
  rw [helement] at htype
  exact ⟨htype, hfrozen.trans hthawed, htype ▸ hafter⟩

/-- An admitted value can be appended. -/
theorem push_of_admits (hout : out.Building t) (h : t.admits v = true) :
    ∃ after, out.push v = .ok after := by
  obtain ⟨rfl, hthawed, hfits⟩ := hout
  exact TypedArray.push_of_admits hfits hthawed h

/-- The loop without labels, by the invariant. -/
theorem collect {convert : Value → Except Error Value} {vs : List Value} (hout : out.Building t)
    (h : TypedArray.collect convert vs out = .ok after) : after.Building t := by
  refine foldlM_invariant (I := fun out => out.Building t) (fun v _ s s' hs hstep => ?_) hout h
  obtain ⟨w, -, hpush⟩ := bind_eq_ok_iff.mp hstep
  exact hs.push hpush

/-- The loop with labels. Labels are put on failures, and none of its steps failed. -/
theorem collectLabelled {convert : Value → Except Error Value} {index : Nat} {vs : List Value}
    (hout : out.Building t) (h : TypedArray.collectLabelled convert index vs out = .ok after) :
    after.Building t := by
  rw [collectLabelled_eq_foldlM] at h
  refine foldlM_invariant (I := fun out => out.Building t) (fun p _ s s' hs hstep => ?_) hout h
  obtain ⟨w, -, hpush⟩ := store_eq_ok_iff.mp hstep
  exact hs.push hpush

/-- So the result of a conversion to an array is one, whichever of the loops made it. -/
theorem decodeWith {convert : Depth → Value → Except Error Value} {depth : Depth}
    (h : TypedArray.decodeWith t convert depth v = .ok out) : out.Building t := by
  obtain ⟨source, inner, -, -, hcollect | ⟨rfl, rfl⟩ | hlabelled⟩ := decodeWith_eq_ok h
  · exact (ofEmpty t).collect hcollect
  · exact ⟨rfl, rfl, trivial⟩
  · exact (ofEmpty t).collectLabelled hlabelled

end TypedArray.Building

namespace TypedMap.Building

variable {t : Ty} {out after : TypedMap} {key : String} {v : Value}

theorem ofEmpty (t : Ty) : (TypedMap.empty t).Building t := ⟨rfl, rfl⟩

/-- A map under construction keeps its type and is not frozen. -/
theorem put (hout : out.Building t) (h : out.put key v = .ok after) : after.Building t := by
  obtain ⟨-, -, rfl⟩ := put_eq_ok_iff.mp h
  exact ⟨hout.ty, hout.thawed⟩

/-- As it is not frozen, nothing but its type can turn a value away. -/
theorem put_of_accepted (hout : out.Building t) (h : out.rejection? key v = none) :
    ∃ after, out.put key v = .ok after :=
  ⟨_, put_eq_ok_iff.mpr ⟨hout.thawed, h, rfl⟩⟩

/-- A value that comes out of a conversion is put like any other. -/
theorem store {converted : Except Error Value} (hout : out.Building t)
    (h : out.store key converted = .ok after) : after.Building t := by
  obtain ⟨w, -, hput⟩ := store_eq_ok_iff.mp h
  exact hout.put hput

/-- The result of a conversion to a map. -/
theorem decodeWith {constraint : Option Ty} {convert : Depth → Value → Except Error Value}
    {depth : Depth} (h : TypedMap.decodeWith constraint convert depth v = .ok out) :
    out.Building (.map constraint) := by
  obtain ⟨source, inner, -, -, hcollect⟩ := decodeWith_eq_ok h
  exact foldlM_invariant (I := fun out => out.Building (.map constraint))
    (fun e _ s s' hs hstep => hs.store hstep) (ofEmpty _) hcollect

/-- The result of a conversion to a record. -/
theorem decode_record {r : RecordTy} {depth : Depth} (h : r.decode depth v = .ok out) :
    out.Building (.record r) := by
  obtain ⟨source, inner, -, -, hfold⟩ := RecordTy.decode_eq_ok h
  exact foldlM_invariant (I := fun out => out.Building (.record r))
    (fun f _ s s' hs hstep => hs.store hstep) (ofEmpty _) hfold

/-- A map that is rebuilt as JSON, or as a map of another type. -/
theorem rebuild {m : TypedMap} {depth : Depth} (h : m.rebuild t depth = .ok out) :
    out.Building t := by
  obtain ⟨inner, -, hfold⟩ := rebuild_eq_ok h
  exact foldlM_invariant (I := fun out => out.Building t)
    (fun e _ s s' hs hstep => hs.store hstep) (ofEmpty _) hfold

end TypedMap.Building

/-! ## Elements of rebuilt arrays -/

/-- Arrays of `json` are JSON. -/
theorem Ty.admits_json_array {a : TypedArray} (h : a.elementType = .json) :
    Ty.json.admits (.array a) = true := by
  show a.elementType.isSubtype .json = true
  rw [h]
  rfl

/-- JSON objects are JSON. -/
theorem Ty.admits_json_map {m : TypedMap} (h : m.ty = .json) : Ty.json.admits (.map m) = true := by
  show m.ty.isSubtype .json = true
  rw [h]
  rfl

/-- **A converted element is JSON**, whatever array it stood in. -/
theorem Value.admits_json_of_encodeElement {v w : Value} {allowed : Bool} {depth : Depth}
    (h : v.encodeElement allowed depth = .ok w) : Ty.json.admits w = true := by
  cases v with
  | null =>
    cases h
    rfl
  | scalar s =>
    replace h : s.encode allowed = .ok w := h
    unfold Scalar.encode at h
    split at h <;> cases h
    rfl
  -- what comes out is an array of `json`, whatever went in
  | array a =>
    obtain ⟨out, hout, rfl⟩ := map_eq_ok_iff.mp h
    obtain ⟨inner, -, ⟨-, rfl⟩ | ⟨ws, -, rfl⟩⟩ := TypedArray.encode_eq_ok hout
    · exact Ty.admits_json_array rfl
    · exact Ty.admits_json_array rfl
  | map m =>
    -- passed on as the JSON object that it is, or rebuilt as one
    rcases TypedMap.encode_eq_ok h with ⟨hjson, rfl⟩ | ⟨out, hout, rfl⟩
    · exact Ty.admits_json_map hjson
    · exact Ty.admits_json_map (TypedMap.Building.rebuild hout).ty

end TypedJson
