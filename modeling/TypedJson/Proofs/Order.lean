import TypedJson.Proofs.Equivalence
import TypedJson.Proofs.Subtyping

/-!
# TypedJson — subtyping is transitive

Subtyping is decided by rules that are tried in turn: equality first, then unions, then `any` and
`json`, then the rules for containers. Whether the rules compose is a question about each two of
them that meet in the middle.

* **`Ty.Below.of_beq_left`**, **`Ty.Below.of_beq_right`** — equality composes with every rule;
* **`Ty.Below.isJsonCompatible`** — what lies below a JSON type is JSON;
* **`Ty.below_iff_alternatives`** — unions are out of the way once they are opened;
* **`Ty.Below.trans`** — the rest is an induction on the type in the middle.
-/

namespace TypedJson

namespace Ty

/-! ## Equality and the rules -/

/-- What lies below a type lies below each type that equals it. -/
theorem Below.of_beq_right {s t u : Ty} (h : Below s t) (heq : t.numEq u = true) : Below s u := by
  -- on the rule that put `s` below `t`: equality gives `u` the shape that the rule asks of `t`
  induction h generalizing u with
  | of_beq h => exact .of_beq (numEq_trans h heq)
  | any s => cases u <;> first | exact .any s | cases heq
  | unionLeft _ ih => exact .unionLeft fun s hs => ih s hs heq
  | unionRight ht _ ih =>
    cases u with
    | union others flag =>
      obtain ⟨hmembers, -⟩ := Bool.and_eq_true_iff.mp heq
      -- the alternatives are equal pair by pair, so the one that was hit has a partner
      obtain ⟨other, hother, heq⟩ := exists_numEq_of_mem hmembers ht
      exact .unionRight hother (ih heq)
    | _ => cases heq
  | byteInt =>
    cases u with
    | scalar k => exact eq_of_beq heq ▸ .byteInt
    | _ => cases heq
  | json h => cases u <;> first | exact .json h | cases heq
  | array _ ih =>
    cases u with
    | array other => exact .array (ih heq)
    | _ => cases heq
  | mapOpen constraint =>
    cases u with
    | map other => cases other <;> first | exact .mapOpen constraint | cases heq
    | _ => cases heq
  | mapOf _ ih =>
    cases u with
    | map other =>
      cases other with
      | none => cases heq
      | some other => exact .mapOf (ih heq)
    | _ => cases heq
  | openMapOf _ ih =>
    cases u with
    | map other =>
      cases other with
      | none => cases heq
      | some other => exact .openMapOf (ih heq)
    | _ => cases heq
  | recordOpen r =>
    cases u with
    | map other => cases other <;> first | exact .recordOpen r | cases heq
    | _ => cases heq
  | recordMapOf _ _ ihFields ihRest =>
    cases u with
    | map other =>
      cases other with
      | none => cases heq
      | some other =>
        exact .recordMapOf (fun f hf => ihFields f hf heq) fun s hs => ihRest s hs heq
    | _ => cases heq

/-- Equal types are JSON together. -/
theorem isJsonCompatible_of_numEq {s t : Ty} (heq : s.numEq t = true)
    (h : t.isJsonCompatible = true) : s.isJsonCompatible = true := by
  induction s generalizing t with
  | scalar | json | null => rfl
  | any =>
    cases t with
    | any => exact h
    | _ => cases heq
  | union members nullable ih =>
    cases t with
    | union others flag =>
      obtain ⟨hmembers, -⟩ := Bool.and_eq_true_iff.mp heq
      refine isJsonCompatible_union_iff.mpr fun s hs => ?_
      obtain ⟨other, hother, heq⟩ := exists_numEq_of_mem hmembers hs
      exact ih s hs heq (isJsonCompatible_union_iff.mp h other hother)
    | _ => cases heq
  | array element ih =>
    cases t with
    | array other => exact ih heq h
    | _ => cases heq
  | openMap =>
    cases t with
    | map other => cases other <;> first | exact h | cases heq
    | _ => cases heq
  | mapOf s ih =>
    cases t with
    | map other =>
      cases other with
      | none => cases heq
      | some other => exact ih heq h
    | _ => cases heq
  | record r ihFields ihRest =>
    cases t with
    | record r' =>
      obtain ⟨-, -, hfields, hrest⟩ := RecordTy.numEq_iff.mp heq
      obtain ⟨hjsonFields, hjsonRest⟩ := RecordTy.isJsonCompatible_iff.mp h
      refine RecordTy.isJsonCompatible_iff.mpr ⟨fun f hf => ?_, fun t ht => ?_⟩
      · -- The field is found by name in the other record, whatever its position.
        obtain ⟨other, hother, heq⟩ := hfields f hf
        exact ihFields f hf (Field.numEq_iff.mp heq).1
          (hjsonFields _ (Entries.mem_of_lookup hother))
      · rcases numEqOption_iff.mp hrest with ⟨hnone, -⟩ | ⟨s, u, hs, hu, heq⟩
        · rw [hnone] at ht
          cases ht
        · cases hs.symm.trans ht
          exact ihRest t ht heq (hjsonRest u hu)
    | _ => cases heq

/-- **What lies below a JSON type is JSON.** -/
theorem Below.isJsonCompatible {s t : Ty} (h : Below s t) (hjson : t.isJsonCompatible = true) :
    s.isJsonCompatible = true := by
  induction h with
  | of_beq heq => exact isJsonCompatible_of_numEq heq hjson
  | any s => cases hjson
  | unionLeft _ ih => exact isJsonCompatible_union_iff.mpr fun s hs => ih s hs hjson
  | unionRight ht _ ih => exact ih (isJsonCompatible_union_iff.mp hjson _ ht)
  | byteInt => rfl
  | json h => exact h
  | array _ ih => exact ih hjson
  | mapOpen constraint => cases hjson
  | mapOf _ ih => exact ih hjson
  | openMapOf _ ih => cases ih hjson
  | recordOpen r => cases hjson
  | recordMapOf _ _ ihFields ihRest =>
    exact RecordTy.isJsonCompatible_iff.mpr
      ⟨fun f hf => ihFields f hf hjson, fun s hs => ihRest s hs hjson⟩

/-- A type lies below each type that lies above an equal one. -/
theorem Below.of_beq_left {s t u : Ty} (heq : s.numEq t = true) (h : Below t u) : Below s u := by
  -- as on the right, but equality rebuilds the source of the rule
  induction h generalizing s with
  | of_beq h => exact .of_beq (numEq_trans heq h)
  | any t => exact .any s
  | unionLeft _ ih =>
    cases s with
    | union members flag =>
      obtain ⟨hmembers, -⟩ := Bool.and_eq_true_iff.mp heq
      refine .unionLeft fun s hs => ?_
      obtain ⟨other, hother, heq⟩ := exists_numEq_of_mem hmembers hs
      exact ih other hother heq
    | _ => cases heq
  | unionRight ht _ ih => exact .unionRight ht (ih heq)
  | byteInt =>
    cases s with
    | scalar k => exact (eq_of_beq heq).symm ▸ .byteInt
    | _ => cases heq
  | json h => exact .json (isJsonCompatible_of_numEq heq h)
  | array _ ih =>
    cases s with
    | array element => exact .array (ih heq)
    | _ => cases heq
  | mapOpen constraint =>
    cases s with
    | map other => exact .mapOpen other
    | _ => cases heq
  | mapOf _ ih =>
    cases s with
    | map constraint =>
      cases constraint with
      | none => cases heq
      | some s => exact .mapOf (ih heq)
    | _ => cases heq
  | openMapOf h _ =>
    cases s with
    | map constraint => cases constraint <;> first | exact .openMapOf h | cases heq
    | _ => cases heq
  | recordOpen r =>
    cases s with
    | record r' => exact .recordOpen r'
    | _ => cases heq
  | recordMapOf _ _ ihFields ihRest =>
    cases s with
    | record r' =>
      obtain ⟨-, -, hfields, hrest⟩ := RecordTy.numEq_iff.mp heq
      refine .recordMapOf (fun f hf => ?_) fun s hs => ?_
      · obtain ⟨other, hother, heq⟩ := hfields f hf
        exact ihFields _ (Entries.mem_of_lookup hother) (Field.numEq_iff.mp heq).1
      · rcases numEqOption_iff.mp hrest with ⟨hnone, -⟩ | ⟨t, u, ht, hu, heq⟩
        · rw [hnone] at hs
          cases hs
        · cases ht.symm.trans hs
          exact ihRest u hu heq
    | _ => cases heq

/-! ## Opening unions -/

/-- A union lies below a type if all of its members do, also where it is equal to that type. -/
theorem below_union_left_iff {members : List Ty} {nullable : Bool} {t : Ty} :
    Below (.union members nullable) t ↔ ∀ s ∈ members, Below s t := by
  constructor
  · intro h s hs
    -- a union may also be below `t` as a whole: by equality, or because `t` is `any`
    rcases isSubtype_union_iff.mp (isSubtype_of_below h) with (heq | hany) | hmembers
    · cases t with
      | union others flag =>
        obtain ⟨hmembers, -⟩ := Bool.and_eq_true_iff.mp heq
        obtain ⟨other, hother, heq⟩ := exists_numEq_of_mem hmembers hs
        exact .unionRight hother (.of_beq heq)
      | _ => cases heq
    · rw [eq_any_of_isAny hany]
      exact .any s
    · exact below_of_isSubtype (hmembers s hs)
  · exact .unionLeft

/-- What is not a union lies below a type if it lies below one of its alternatives. -/
theorem below_iff_alternative {s t : Ty} (hs : s.isUnion = false) :
    Below s t ↔ ∃ a ∈ t.alternatives, Below s a := by
  simp only [← isSubtype_iff_below]
  exact isSubtype_iff_alternative hs

/-- **Subtyping is a matter of alternatives**: each one on the left lies below one on the right. -/
theorem below_iff_alternatives {s t : Ty} :
    Below s t ↔ ∀ a ∈ s.alternatives, ∃ b ∈ t.alternatives, Below a b := by
  induction s with
  | union members nullable ih =>
    simp only [below_union_left_iff, mem_alternatives_union]
    constructor
    · rintro h a ⟨s, hs, ha⟩
      exact (ih s hs).mp (h s hs) a ha
    · intro h s hs
      exact (ih s hs).mpr fun a ha => h a ⟨s, hs, ha⟩
  | _ =>
    rw [alternatives_of_not_union rfl, List.forall_mem_singleton]
    exact below_iff_alternative rfl

/-! ## Transitivity -/

/-- Through a type that is not a union, it is enough to look at types that are not unions either,
and at pairs of rules that have something to do with each other: equality composes with every rule,
and `any` and `json` lie above whatever lies below. -/
theorem Below.trans_of_middle {b : Ty} (hb : b.isUnion = false)
    (hrules : ∀ a c : Ty, a.isUnion = false → c.isUnion = false → ¬ a.numEq b = true →
      ¬ b.numEq c = true → c ≠ .any → c ≠ .json → Below a b → Below b c → Below a c)
    {a c : Ty} (hab : Below a b) (hbc : Below b c) : Below a c := by
  obtain ⟨c', hc', hbc⟩ := (below_iff_alternative hb).mp hbc
  refine below_iff_alternatives.mpr fun a' ha' => ⟨c', hc', ?_⟩
  obtain ⟨b', hb', hab'⟩ := below_iff_alternatives.mp hab a' ha'
  rw [alternatives_of_not_union hb, List.mem_singleton] at hb'
  subst hb'
  -- the answers that are the same for every middle come first; `hrules` is asked for the rest
  by_cases heq : a'.numEq b' = true
  · exact hbc.of_beq_left heq
  by_cases heq' : b'.numEq c' = true
  · exact hab'.of_beq_right heq'
  by_cases hany : c' = .any
  · exact hany ▸ .any a'
  by_cases hjson : c' = .json
  · subst hjson
    exact .json (hab'.isJsonCompatible (hbc.isJsonCompatible rfl))
  exact hrules a' c' (not_union_of_mem_alternatives ha') (not_union_of_mem_alternatives hc') heq
    heq' hany hjson hab' hbc

/-- Nothing lies above `any` but unions with it. -/
theorem Below.eq_any {a : Ty} (ha : a.isUnion = false) (h : Below .any a) : a = .any := by
  cases h with
  | of_beq heq => cases a <;> first | rfl | cases heq
  | any => rfl
  | unionRight => cases ha
  | json hcompatible => cases hcompatible

/-- What lies above `any` lies above everything. -/
theorem Below.of_any_below {s t : Ty} (h : Below .any t) : Below s t := by
  obtain ⟨a, ha, h⟩ := (below_iff_alternative rfl).mp h
  exact .of_alternative ha (h.eq_any (not_union_of_mem_alternatives ha) ▸ .any s)

/-- **Subtyping is transitive.** -/
theorem Below.trans {a b c : Ty} (hab : Below a b) (hbc : Below b c) : Below a c := by
  induction b generalizing a c with
  | scalar | json | any | null =>
    refine trans_of_middle rfl (fun a c ha hc hne hne' hany hjson hab hbc => ?_) hab hbc
    -- no two rules meet here
    cases hab <;> cases hbc <;> contradiction
  | union members nullable ih =>
    refine below_iff_alternatives.mpr fun a' ha' => ?_
    obtain ⟨b', hb', hab⟩ := below_iff_alternatives.mp hab a' ha'
    obtain ⟨t, ht, hb'⟩ := mem_alternatives_union.mp hb'
    have hac : Below a' c :=
      ih t ht (.of_alternative hb' hab) (below_union_left_iff.mp hbc t ht)
    exact (below_iff_alternative (not_union_of_mem_alternatives ha')).mp hac
  | array element ih =>
    refine trans_of_middle rfl (fun a c ha hc hne hne' hany hjson hab hbc => ?_) hab hbc
    cases hab with
    | array hab =>
      cases hbc with
      | array hbc => exact .array (ih hab hbc)
      | _ => contradiction
    | _ => contradiction
  | openMap =>
    refine trans_of_middle rfl (fun a c ha hc hne hne' hany hjson hab hbc => ?_) hab hbc
    cases hbc with
    | openMapOf hvalues =>
      -- below a map of anything there is every map and every record
      cases hab with
      | mapOpen constraint =>
        cases constraint with
        | none => exact .openMapOf hvalues
        | some s => exact .mapOf (.of_any_below hvalues)
      | recordOpen r =>
        exact .recordMapOf (fun _ _ => .of_any_below hvalues) fun _ _ => .of_any_below hvalues
      | _ => contradiction
    | _ => contradiction
  | mapOf t ih =>
    refine trans_of_middle rfl (fun a c ha hc hne hne' hany hjson hab hbc => ?_) hab hbc
    cases hbc with
    | mapOf hbc =>
      cases hab with
      | mapOf hab => exact .mapOf (ih hab hbc)
      | openMapOf hvalues => exact .openMapOf (ih hvalues hbc)
      | recordMapOf hfields hrest =>
        exact .recordMapOf (fun f hf => ih (hfields f hf) hbc) fun s hs => ih (hrest s hs) hbc
      | _ => contradiction
    | mapOpen constraint =>
      cases hab with
      | mapOf => exact .mapOpen _
      | openMapOf => exact .mapOpen none
      | recordMapOf => exact .recordOpen _
      | _ => contradiction
    | _ => contradiction
  | record r ihFields ihRest =>
    refine trans_of_middle rfl (fun a c ha hc hne hne' hany hjson hab hbc => ?_) hab hbc
    -- nothing else than an equal record type lies below a record type
    cases hab <;> contradiction

/-- Subtyping is transitive, for all types: neither distinct names nor NaN-free defaults are asked
for. -/
theorem isSubtype_trans {a b c : Ty} (hab : a.isSubtype b = true) (hbc : b.isSubtype c = true) :
    a.isSubtype c = true :=
  isSubtype_of_below ((below_of_isSubtype hab).trans (below_of_isSubtype hbc))

/-! ## The checks and equality -/

/-- Neither operand of subtyping can be told from an equal type. -/
theorem isSubtype_of_numEq {s s' t t' : Ty} (hs : s'.numEq s = true) (ht : t.numEq t' = true)
    (h : s.isSubtype t = true) : s'.isSubtype t' = true :=
  isSubtype_of_below (((below_of_isSubtype h).of_beq_left hs).of_beq_right ht)

/-- Equal types admit the same values. -/
theorem admits_of_numEq {t u : Ty} {v : Value} (heq : t.numEq u = true) (h : t.admits v = true) :
    u.admits v = true := by
  -- a container is judged by its declared type, so below containers this is about subtyping
  have hbelow {s t u : Ty} (heq : t.numEq u = true) (h : s.isSubtype t = true) :
      s.isSubtype u = true :=
    isSubtype_of_below ((below_of_isSubtype h).of_beq_right heq)
  induction t generalizing u with
  | scalar k =>
    cases u with
    | scalar l => exact eq_of_beq heq ▸ h
    | _ => cases heq
  | json | any | null => cases u <;> first | exact h | cases heq
  | union members nullable ih =>
    cases u with
    | union others flag =>
      obtain ⟨hmembers, -⟩ := Bool.and_eq_true_iff.mp heq
      obtain ⟨t, ht, h⟩ := admits_union_iff.mp h
      obtain ⟨other, hother, heq⟩ := exists_numEq_of_mem hmembers ht
      exact admits_union_iff.mpr ⟨other, hother, ih t ht heq h⟩
    | _ => cases heq
  | array element _ =>
    cases u with
    | array other =>
      cases v with
      | array a => exact hbelow heq h
      | _ => cases h
    | _ => cases heq
  | openMap =>
    cases u with
    | map constraint => cases constraint <;> first | exact h | cases heq
    | _ => cases heq
  | mapOf t _ =>
    cases u with
    | map constraint =>
      cases constraint with
      | none => cases heq
      | some other =>
        cases v with
        | map m =>
          cases hty : m.ty.isJson with
          | true =>
            -- `json` and `any` are equal to nothing but themselves
            rw [admits, if_pos hty, constraintAdmitsJson, Bool.or_eq_true] at h ⊢
            rcases h with h | h
            · rw [eq_json_of_isJson h] at heq
              cases other <;> first | exact .inl rfl | cases heq
            · rw [eq_any_of_isAny h] at heq
              cases other <;> first | exact .inr rfl | cases heq
          | false =>
            rw [admits, hty, if_neg Bool.false_ne_true] at h ⊢
            exact hbelow heq h
        | _ => cases h
    | _ => cases heq
  | record r _ _ =>
    cases u with
    | record r' =>
      cases v with
      | map m => exact hbelow heq h
      | _ => cases h
    | _ => cases heq

/-- **The checks hang together.** Subtyping is transitive, and neither check can tell equal types
apart. -/
theorem checks_respect_order_and_equality :
    (∀ a b c : Ty, a.isSubtype b = true → b.isSubtype c = true → a.isSubtype c = true) ∧
    (∀ a a' b b' : Ty, a.Keyed → b.Keyed → (a == a') = true → (b == b') = true →
      a.isSubtype b = a'.isSubtype b') ∧
    (∀ (a a' : Ty) (v : Value), a.Keyed → (a == a') = true → a.admits v = a'.admits v) := by
  refine ⟨fun a b c => isSubtype_trans, ?_, ?_⟩
  · intro a a' b b' ha hb heq heq'
    rw [Bool.eq_iff_iff]
    exact ⟨isSubtype_of_numEq (numEq_symm ha heq) heq',
      isSubtype_of_numEq heq (numEq_symm hb heq')⟩
  · intro a a' v ha heq
    rw [Bool.eq_iff_iff]
    exact ⟨admits_of_numEq heq, admits_of_numEq (numEq_symm ha heq)⟩

/-- A record with a default that is not a number, so it is not even equal to itself. -/
def gauge : RecordTy where
  name := "Gauge"
  fields := [("drift", ⟨.float, .float .nan⟩)]
  rest := some .int

/-- A record with a price of 1.00. What its note is a choice of has no null in it. -/
def offer : RecordTy where
  name := "Offer"
  fields := [("price", ⟨.decimal, .decimal ⟨false, 100, 2, by decide, by decide⟩⟩),
    ("note", ⟨.union [.string] true, .string ""⟩)]
  rest := none

/-- The same record with its fields the other way round and with a price of 1.000. -/
def offerReordered : RecordTy where
  name := "Offer"
  fields := [("note", ⟨.union [.string] true, .string ""⟩),
    ("price", ⟨.decimal, .decimal ⟨false, 1000, 3, by decide, by decide⟩⟩)]
  rest := none

/-- A record with a NaN default is not equal to itself but still below the open map, by the
chain. A record with its fields reordered equals the first one, so both checks take it for
that. -/
theorem checks_respect_order_and_equality_offer :
    (Ty.record gauge == .record gauge) = false ∧
    (Ty.record gauge).isSubtype .openMap = true ∧
    Entries.keys offer.fields ≠ Entries.keys offerReordered.fields ∧
    (Ty.record offerReordered).isSubtype (.record offer) = true ∧
    (Ty.record offerReordered).admits (.map (.empty (.record offer))) = true := by
  obtain ⟨htrans, hsubtype, hadmits⟩ := checks_respect_order_and_equality
  have hkeyed : (Ty.record offer).Keyed := by
    simp [Keyed, offer, Part.HasDistinctKeys, Entries.Distinct, Entries.keys]
  have hequal : (Ty.record offer == .record offerReordered) = true := by decide
  refine ⟨by decide, ?_, by decide, ?_, ?_⟩
  · exact htrans (.record gauge) (.mapOf (.union [.float, .int] true)) .openMap (by decide)
      (by decide)
  · rw [← hsubtype _ _ _ (.record offer) hkeyed hkeyed hequal (by decide)]
    decide
  · rw [← hadmits _ _ _ hkeyed hequal]
    decide

end Ty

end TypedJson
