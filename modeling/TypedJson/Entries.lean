/-!
# TypedJson — entries

Keyed data in insertion order: a list of pairs whose keys are distinct. A new key goes to the end, a
key that is there keeps its place. Reading is `List.lookup`.

Two views say all about an operation: the keys in order (`keys_insert`, `keys_erase`) and what is
under each key (`lookup_insert`, `lookup_erase`).
-/

namespace TypedJson

/-- Values by key, in the order in which the keys were first inserted. -/
abbrev Entries (α : Type) := List (String × α)

namespace Entries

variable {α : Type}

/-- The keys, in order. -/
def keys (entries : Entries α) : List String := entries.map Prod.fst

/-- Every key occurs once. -/
def Distinct (entries : Entries α) : Prop := (keys entries).Nodup

/-- Whether there is a value under the key. -/
def hasKey (entries : Entries α) (key : String) : Bool := (entries.lookup key).isSome

/-- Puts a value under a key: in place of the old one, or at the end. -/
def insert : Entries α → String → α → Entries α
  | [], key, a => [(key, a)]
  | (k, b) :: rest, key, a => if key = k then (k, a) :: rest else (k, b) :: insert rest key a

/-- Removes a key; the others keep their order. -/
def erase : Entries α → String → Entries α
  | [], _ => []
  | (k, b) :: rest, key => if key = k then rest else (k, b) :: erase rest key

/-- Reading takes the first entry under the key. -/
theorem lookup_cons (k : String) (b : α) (rest : Entries α) (key : String) :
    List.lookup key ((k, b) :: rest) = if key = k then some b else rest.lookup key := by
  by_cases h : key = k
  · simp [h]
  · simp [List.lookup_cons, h, beq_eq_false_iff_ne.mpr h]

/-- What is read under a key stands in the list. -/
theorem mem_of_lookup {entries : Entries α} {key : String} {a : α}
    (h : entries.lookup key = some a) : (key, a) ∈ entries := by
  induction entries with
  | nil => cases h
  | cons entry rest ih =>
    -- a look-up gives the first entry with the key, and any one will do here
    obtain ⟨k, b⟩ := entry
    rw [lookup_cons] at h
    split at h
    · rename_i e
      cases h
      exact e ▸ List.mem_cons_self
    · exact List.mem_cons_of_mem _ (ih h)

/-- A written entry is the new one or was there. -/
theorem mem_insert {entries : Entries α} {key : String} {a : α} {e : String × α}
    (h : e ∈ insert entries key a) : e ∈ entries ∨ e = (key, a) := by
  induction entries with
  | nil => exact .inr (List.mem_singleton.mp h)
  | cons entry rest ih =>
    obtain ⟨k, b⟩ := entry
    unfold insert at h
    split at h
    · -- the key is there already: its entry is the only one that changes
      rename_i heq
      rcases List.mem_cons.mp h with rfl | hrest
      · exact .inr (by rw [heq])
      · exact .inl (List.mem_cons_of_mem _ hrest)
    · rcases List.mem_cons.mp h with rfl | hrest
      · exact .inl List.mem_cons_self
      · exact (ih hrest).imp (List.mem_cons_of_mem _) id

/-- What is left after a removal was there. -/
theorem mem_of_mem_erase {entries : Entries α} {key : String} {e : String × α}
    (h : e ∈ erase entries key) : e ∈ entries := by
  induction entries with
  | nil => cases h
  | cons entry rest ih =>
    obtain ⟨k, b⟩ := entry
    unfold erase at h
    split at h
    · exact List.mem_cons_of_mem _ h
    · rcases List.mem_cons.mp h with rfl | hrest
      · exact List.mem_cons_self
      · exact List.mem_cons_of_mem _ (ih hrest)

/-! ### Keys -/

/-- A key has a value exactly when it is one of the keys. -/
theorem hasKey_iff (entries : Entries α) (key : String) :
    hasKey entries key = true ↔ key ∈ keys entries := by
  induction entries with
  | nil => simp [hasKey, keys]
  | cons entry rest ih =>
    obtain ⟨k, b⟩ := entry
    simp only [hasKey, keys, lookup_cons, List.map_cons, List.mem_cons] at ih ⊢
    by_cases h : key = k <;> simp [h, ih]

/-- A key that is not there has no value. -/
theorem lookup_eq_none_iff (entries : Entries α) (key : String) :
    entries.lookup key = none ↔ key ∉ keys entries := by
  rw [← hasKey_iff, hasKey]
  cases entries.lookup key <;> simp

/-- A key that is there keeps its place, a new one goes to the end. -/
theorem keys_insert (entries : Entries α) (key : String) (a : α) :
    keys (insert entries key a) =
      if key ∈ keys entries then keys entries else keys entries ++ [key] := by
  induction entries with
  | nil => simp [insert, keys]
  | cons entry rest ih =>
    obtain ⟨k, b⟩ := entry
    by_cases h : key = k
    · simp [insert, keys, h]
    · have step : keys (insert ((k, b) :: rest) key a) = k :: keys (insert rest key a) := by
        simp [insert, keys, h]
      have mem : key ∈ keys ((k, b) :: rest) ↔ key ∈ keys rest := by simp [keys, h]
      -- a head with another key changes neither whether the key is there nor where the new one goes
      simp only [step, ih, mem]
      split <;> simp [keys]

/-- A new key goes to the end, with its value. -/
theorem insert_of_not_mem {entries : Entries α} {key : String} (h : key ∉ keys entries) (a : α) :
    insert entries key a = entries ++ [(key, a)] := by
  induction entries with
  | nil => rfl
  | cons entry rest ih =>
    obtain ⟨k, b⟩ := entry
    have hhead : key ≠ k := fun e => h (e ▸ List.mem_cons_self)
    have hrest : key ∉ keys rest := fun hmem => h (List.mem_cons_of_mem k hmem)
    rw [insert, if_neg hhead, ih hrest]
    rfl

/-- Removal leaves the order of the other keys alone. -/
theorem keys_erase (entries : Entries α) (key : String) :
    keys (erase entries key) = (keys entries).erase key := by
  induction entries with
  | nil => simp [erase, keys]
  | cons entry rest ih =>
    obtain ⟨k, b⟩ := entry
    by_cases h : key = k
    · simp [erase, keys, h]
    · have h' : ¬ k = key := fun e => h e.symm
      simp only [keys] at ih
      simp [erase, keys, h, h', ih]

/-! ### Values -/

/-- Insertion changes what is under one key. -/
theorem lookup_insert (entries : Entries α) (key other : String) (a : α) :
    (insert entries key a).lookup other = if other = key then some a else entries.lookup other := by
  induction entries with
  | nil => simp [insert, lookup_cons]
  | cons entry rest ih =>
    obtain ⟨k, b⟩ := entry
    by_cases h : key = k
    · by_cases h' : other = k <;> simp [insert, lookup_cons, h, h']
    · by_cases h' : other = k
      · simp [insert, h, h', Ne.symm h]
      · simp [insert, lookup_cons, h, h', ih]

/-- Removal changes what is under one key. -/
theorem lookup_erase {entries : Entries α} (distinct : Distinct entries) (key other : String) :
    (erase entries key).lookup other = if other = key then none else entries.lookup other := by
  induction entries with
  | nil => simp [erase]
  | cons entry rest ih =>
    obtain ⟨k, b⟩ := entry
    obtain ⟨absent, distinct⟩ := List.nodup_cons.mp distinct
    by_cases h : key = k
    · -- only the first entry with the key is removed, so without distinctness another could turn up
      subst h
      by_cases h' : other = key
      · simpa [erase, h'] using (lookup_eq_none_iff rest key).mpr absent
      · simp [erase, lookup_cons, h']
    · by_cases h' : other = k
      · simp [erase, h, h', Ne.symm h]
      · simp [erase, lookup_cons, h, h', ih distinct]

/-! ### Mapped values -/

section

variable {β : Type} (f : α → β)

/-- Under a key of mapped entries is what was there, mapped. -/
theorem lookup_mapped (entries : Entries α) (key : String) :
    List.lookup key (entries.map fun e => (e.1, f e.2)) = (entries.lookup key).map f := by
  induction entries with
  | nil => rfl
  | cons entry rest ih =>
    obtain ⟨k, b⟩ := entry
    rw [List.map_cons, lookup_cons, lookup_cons, ih]
    split <;> rfl

/-- A function on values leaves keys alone; so do look-ups, insertions and removals below. -/
theorem keys_mapped (entries : Entries α) :
    keys (entries.map fun e => (e.1, f e.2)) = keys entries := by
  simp [keys, Function.comp_def]

theorem hasKey_mapped (entries : Entries α) (key : String) :
    hasKey (entries.map fun e => (e.1, f e.2)) key = hasKey entries key := by
  simp [hasKey, lookup_mapped]

/-- Inserting goes by keys, so it commutes with a function on values. -/
theorem insert_mapped (entries : Entries α) (key : String) (a : α) :
    insert (entries.map fun e => (e.1, f e.2)) key (f a) =
      (insert entries key a).map fun e => (e.1, f e.2) := by
  induction entries with
  | nil => rfl
  | cons entry rest ih =>
    obtain ⟨k, b⟩ := entry
    by_cases h : key = k <;> simp [insert, h, ih]

/-- And so does removing. -/
theorem erase_mapped (entries : Entries α) (key : String) :
    erase (entries.map fun e => (e.1, f e.2)) key =
      (erase entries key).map fun e => (e.1, f e.2) := by
  induction entries with
  | nil => rfl
  | cons entry rest ih =>
    obtain ⟨k, b⟩ := entry
    by_cases h : key = k <;> simp [erase, h, ih]

end

/-! ### Distinct keys -/

/-- What stands in the list under a key is what is read there. -/
theorem Distinct.lookup_eq_some {entries : Entries α} (distinct : Distinct entries)
    {entry : String × α} (mem : entry ∈ entries) : entries.lookup entry.1 = some entry.2 := by
  induction entries with
  | nil => cases mem
  | cons head rest ih =>
    obtain ⟨k, b⟩ := head
    obtain ⟨absent, distinct⟩ := List.nodup_cons.mp distinct
    rw [lookup_cons]
    rcases List.mem_cons.mp mem with rfl | mem
    · rw [if_pos rfl]
    · -- the head has another key, or the entry would be there twice
      have differs : entry.1 ≠ k := fun e => absent (List.mem_map.mpr ⟨entry, mem, e⟩)
      rw [if_neg differs]
      exact ih distinct mem

/-- Insertion is the one way to a new key, and it takes it only where it is not there yet. -/
theorem Distinct.insert {entries : Entries α} (distinct : Distinct entries) (key : String) (a : α) :
    Distinct (insert entries key a) := by
  unfold Distinct
  rw [keys_insert]
  split
  · exact distinct
  · rename_i absent
    refine List.nodup_append.mpr ⟨distinct, by simp, fun k hk l hl => ?_⟩
    rw [List.mem_singleton.mp hl]
    exact fun e => absent (e ▸ hk)

/-- A sublist of distinct keys. -/
theorem Distinct.erase {entries : Entries α} (distinct : Distinct entries) (key : String) :
    Distinct (erase entries key) := by
  unfold Distinct
  rw [keys_erase]
  exact List.Nodup.erase key distinct

end Entries

end TypedJson
