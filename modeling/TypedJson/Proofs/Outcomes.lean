import TypedJson.Encode
import TypedJson.Proofs.Loops

/-!
# TypedJson — what a successful conversion did

A conversion that gave a value took one way through its definition. The lemmas here name that way,
one for each kind of container, so that a proof about results starts from them and opens no
conversion:

* **`Ty.decode_union_eq_ok`**, **`TypedArray.decodeWith_eq_ok`**, **`TypedMap.decodeWith_eq_ok`**,
  **`RecordTy.decode_eq_ok`** — from JSON to a type;
* **`TypedArray.encode_eq_ok`**, **`TypedMap.encode_eq_ok`** — back to JSON.
-/

namespace TypedJson

/-! ## From JSON -/

/-- A conversion to a scalar type gives a scalar of this very type. -/
theorem ScalarKind.decode_eq_ok {k : ScalarKind} {depth : Depth} {v r : Value}
    (h : k.decode depth v = .ok r) : ∃ s, r = .scalar s ∧ s.kind = k := by
  unfold decode at h
  split at h
  case h_5 x =>
    -- the one conversion that can fail in the middle: a float that is no decimal
    split at h <;> cases h
    exact ⟨_, rfl, rfl⟩
  case h_9 =>
    obtain ⟨-, -, h⟩ := bind_eq_ok_iff.mp h
    cases h
    exact ⟨_, rfl, rfl⟩
  all_goals cases h
  all_goals exact ⟨_, rfl, rfl⟩

/-- A scalar of the very type is converted to itself; only for bytes there is no conversion. -/
theorem ScalarKind.decode_self {s : Scalar} (hjson : s.kind.isJson = true) (depth : Depth) :
    s.kind.decode depth (.scalar s) = .ok (.scalar s) := by
  cases s <;> first | rfl | cases hjson

/-- A converted array was filled by the loop of a scalar type, taken over as it is for `any`, or
filled by the loop with labels. -/
theorem TypedArray.decodeWith_eq_ok {elementType : Ty}
    {convert : Depth → Value → Except Error Value} {depth : Depth} {v : Value} {out : TypedArray}
    (h : decodeWith elementType convert depth v = .ok out) :
    ∃ source inner, v = .array source ∧ depth.enter = .ok inner ∧
      (collect (convert inner) source.toList (.empty elementType) = .ok out ∨
        elementType = .any ∧ out = .ofBoxed .any source.toList ∨
        collectLabelled (convert inner) 0 source.toList (.empty elementType) = .ok out) := by
  cases v with
  | array source =>
    obtain ⟨inner, hinner, h⟩ := bind_eq_ok_iff.mp h
    refine ⟨source, inner, rfl, hinner, ?_⟩
    split at h
    -- the cases before are the five scalar types with a loop of their own
    case h_6 =>
      cases h
      exact .inr (.inl ⟨rfl, rfl⟩)
    case h_7 => exact .inr (.inr h)
    all_goals exact .inl h
  | _ => cases h

theorem TypedMap.decodeWith_eq_ok {constraint : Option Ty}
    {convert : Depth → Value → Except Error Value} {depth : Depth} {v : Value} {out : TypedMap}
    (h : decodeWith constraint convert depth v = .ok out) :
    ∃ source inner, v = .map source ∧ depth.enter = .ok inner ∧
      collect (convert inner) source.entries (.empty (.map constraint)) = .ok out := by
  unfold decodeWith at h
  split at h
  · rename_i source hsource
    obtain ⟨inner, hinner, h⟩ := bind_eq_ok_iff.mp h
    exact ⟨source, inner, Value.eq_map_of_asObject? hsource, hinner, h⟩
  · cases h

/-- A converted record was filled, field by field, from an object. -/
theorem RecordTy.decode_eq_ok {r : RecordTy} {depth : Depth} {v : Value} {out : TypedMap}
    (h : r.decode depth v = .ok out) :
    ∃ source inner, v = .map source ∧ depth.enter = .ok inner ∧
      r.fields.foldlM (fun (out : TypedMap) f => out.store f.1 (f.2.decode inner (source.get? f.1)))
        (.empty (.record r)) = .ok out := by
  obtain ⟨name, fields, rest⟩ := r
  rw [decode] at h
  split at h
  · rename_i source hsource
    obtain ⟨inner, hinner, h⟩ := bind_eq_ok_iff.mp h
    rw [Field.decodeAll_eq_foldlM] at h
    exact ⟨source, inner, Value.eq_map_of_asObject? hsource, hinner, h⟩
  · cases h

/-- A union gives null for null where it is nullable, and what its only member gives otherwise. -/
theorem Ty.decode_union_eq_ok_iff {members : List Ty} {nullable : Bool} {depth : Depth}
    {v r : Value} : (Ty.union members nullable).decode depth v = .ok r ↔
      (v.isNull && nullable) = true ∧ r = .null ∨
        (v.isNull && nullable) = false ∧
          ∃ only, nonNull members = [only] ∧ only.decode depth v = .ok r := by
  rw [decode, decodeOnly_eq]
  cases v.isNull && nullable with
  | true =>
    rw [if_pos rfl]
    constructor
    · intro h
      exact .inl ⟨rfl, (Except.ok.inj h).symm⟩
    · rintro (⟨-, rfl⟩ | ⟨hfalse, -⟩)
      · rfl
      · cases hfalse
  | false =>
    rw [if_neg Bool.false_ne_true]
    -- exactly one alternative besides null is read; none or several are refused
    cases hmembers : nonNull members with
    | nil => simp
    | cons only rest =>
      cases rest with
      | nil => simp
      | cons second rest => simp

/-- What a union converts to is `null` or what one of its alternatives converts to. -/
theorem Ty.decode_union_eq_ok {members : List Ty} {nullable : Bool} {depth : Depth} {v r : Value}
    (h : (Ty.union members nullable).decode depth v = .ok r) :
    nullable = true ∧ r = .null ∨ ∃ only ∈ members, only.decode depth v = .ok r := by
  rcases decode_union_eq_ok_iff.mp h with ⟨hnull, rfl⟩ | ⟨-, only, honly, h⟩
  · exact .inl ⟨(Bool.and_eq_true_iff.mp hnull).2, rfl⟩
  · exact .inr ⟨only, mem_of_nonNull honly, h⟩

/-! ## To JSON -/

/-- An array of scalars is copied as it stands, any other is converted element by element. -/
theorem TypedArray.encode_eq_ok {a out : TypedArray} {depth : Depth}
    (h : a.encode depth = .ok out) :
    ∃ inner, depth.enter = .ok inner ∧
      ((∃ k, a.elementType = .scalar k) ∧ out = .ofBoxed .json a.toList ∨
        ∃ ws, a.toList.mapM (·.encodeElement a.elementType.isJsonCompatible inner) = .ok ws ∧
          out = .ofBoxed .json ws) := by
  rw [encode_eq] at h
  obtain ⟨inner, hinner, h⟩ := bind_eq_ok_iff.mp h
  refine ⟨inner, hinner, ?_⟩
  split at h
  case h_5 =>
    obtain ⟨ws, hws, h⟩ := bind_eq_ok_iff.mp h
    exact .inr ⟨ws, hws, (Except.ok.inj h).symm⟩
  all_goals
    rename_i hk
    exact .inl ⟨⟨_, hk⟩, (Except.ok.inj h).symm⟩

/-- A JSON object is passed on as it is, any other map is rebuilt entry by entry. -/
theorem TypedMap.encode_eq_ok {m : TypedMap} {target : Ty} {depth : Depth} {w : Value}
    (h : m.encode target depth = .ok w) :
    m.ty = .json ∧ w = .map m ∨ ∃ out, m.rebuild target depth = .ok out ∧ w = .map out := by
  rw [encode_eq] at h
  split at h
  · rename_i hjson
    exact .inl ⟨hjson, (Except.ok.inj h).symm⟩
  · obtain ⟨out, hout, rfl⟩ := map_eq_ok_iff.mp h
    exact .inr ⟨out, hout, rfl⟩
  · obtain ⟨out, hout, rfl⟩ := map_eq_ok_iff.mp h
    exact .inr ⟨out, hout, rfl⟩
  · cases h

theorem TypedMap.rebuild_eq_ok {m out : TypedMap} {target : Ty} {depth : Depth}
    (h : m.rebuild target depth = .ok out) :
    ∃ inner, depth.enter = .ok inner ∧
      collect (·.encodeEntry target inner) m.entries (.empty target) = .ok out := by
  rw [rebuild_eq] at h
  exact bind_eq_ok_iff.mp h

/-- A member of a union is null, a scalar or a map. -/
theorem Value.encodeMember_eq_ok {v w : Value} {target : Ty} {depth : Depth}
    (h : v.encodeMember target depth = .ok w) : v.encodeEntry target depth = .ok w := by
  cases v with
  | array a => cases h
  | _ => exact h

/-- Only a map is taken at the root, and it is rebuilt there even if it is a JSON object. -/
theorem Value.encodeRecord_eq_ok {v : Value} {depth : Depth} {out : TypedMap}
    (h : v.encodeRecord depth = .ok out) :
    ∃ m, v = .map m ∧ m.rebuild .json depth = .ok out := by
  cases v with
  | map m =>
    replace h : (if m.ty.isMapping then m.rebuild .json depth
      else .error (.incompatible Ty.json.name m.ty.name)) = .ok out := h
    split at h
    · exact ⟨m, rfl, h⟩
    · cases h
  | _ => cases h

end TypedJson
