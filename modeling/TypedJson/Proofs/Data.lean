import TypedJson.Json
import TypedJson.Value.Text
import TypedJson.Proofs.Contents
import TypedJson.Proofs.Equality

/-!
# TypedJson — the data of a value

A value is data with declarations on it: element types, map types, storages, freeze flags.
Conversion to JSON replaces the declarations and must leave the data alone.

* **`Value.tree`** — the data, which is what is left when all declarations are forgotten;
* **`Value.SameData`** — two values with the same tree, and so with the same text and document;
* **`Value.tree_of_encode`** — conversion to JSON keeps the tree, of elements and of entries;
* **`encode_keepsData`** — the same for each entry point of the library.

Keys, order, kinds of scalars and scales of decimals are all part of the tree, so nothing of them is
lost, doubled or moved.
-/

namespace TypedJson

/-- Data without declarations. -/
inductive Tree where
  | null
  | scalar (s : Scalar)
  | array (items : List Tree)
  | map (entries : List (String × Tree))

mutual

/-- The data of a value. -/
def Value.tree : Value → Tree
  | .null => .null
  | .scalar s => .scalar s
  | .array a => a.tree
  | .map m => m.tree
termination_by structural v => v

def TypedArray.tree : TypedArray → Tree
  | ⟨_, storage, _⟩ => .array storage.trees
termination_by structural a => a

def Storage.trees : Storage → List Tree
  | .packed column => column.toScalars.map .scalar
  | .boxed elements => Value.trees elements
termination_by structural s => s

def TypedMap.tree : TypedMap → Tree
  | ⟨_, entries, _⟩ => .map (Value.entryTrees entries)
termination_by structural m => m

def Value.trees : List Value → List Tree
  | [] => []
  | v :: rest => v.tree :: Value.trees rest
termination_by structural vs => vs

def Value.entryTrees : List (String × Value) → List (String × Tree)
  | [] => []
  | (key, v) :: rest => (key, v.tree) :: Value.entryTrees rest
termination_by structural es => es

end

theorem Value.trees_eq_map (vs : List Value) : Value.trees vs = vs.map Value.tree := by
  induction vs with
  | nil => rfl
  | cons v rest ih => simp [Value.trees, ih]

theorem Value.entryTrees_eq_map (es : List (String × Value)) :
    Value.entryTrees es = es.map fun e => (e.1, e.2.tree) := by
  induction es with
  | nil => rfl
  | cons e rest ih => simp [Value.entryTrees, ih]

/-- The data of an array is that of its elements, whatever the storage. -/
theorem Value.tree_array (a : TypedArray) : (Value.array a).tree = .array (a.toList.map tree) := by
  obtain ⟨elementType, storage, frozen⟩ := a
  rw [tree, TypedArray.tree, TypedArray.toList]
  cases storage with
  | packed column => simp [Storage.trees, Storage.toList, Function.comp_def, Value.tree]
  | boxed elements => simp [Storage.trees, Storage.toList, Value.trees_eq_map]

/-- The data of a map is that of its entries. -/
theorem Value.tree_map (m : TypedMap) :
    (Value.map m).tree = .map (m.entries.map fun e => (e.1, e.2.tree)) := by
  cases m
  rw [tree, TypedMap.tree, entryTrees_eq_map]

namespace Value

variable {v w : Value}

/-- Only `null` has the tree of `null`. -/
theorem eq_null_of_tree (h : w.tree = .null) : w = .null := by
  cases w with
  | null => rfl
  | scalar s => cases h
  | array a => rw [tree_array] at h; cases h
  | map m => rw [tree_map] at h; cases h

/-- A tree that is a leaf gives back the scalar, its kind included: an integer and a byte of the
same number have different trees. -/
theorem eq_scalar_of_tree {s : Scalar} (h : w.tree = .scalar s) : w = .scalar s := by
  cases w with
  | null => cases h
  | scalar t => rw [Tree.scalar.inj h]
  | array a => rw [tree_array] at h; cases h
  | map m => rw [tree_map] at h; cases h

/-- A value with the tree of an array is an array, and its elements have the subtrees in order. The
element type and the storage are what the tree forgets. -/
theorem exists_array_of_tree {items : List Tree} (h : w.tree = .array items) :
    ∃ a : TypedArray, w = .array a ∧ a.toList.map tree = items := by
  cases w with
  | null => cases h
  | scalar s => cases h
  | array a =>
    rw [tree_array] at h
    exact ⟨a, rfl, Tree.array.inj h⟩
  | map m => rw [tree_map] at h; cases h

theorem exists_map_of_tree {entries : List (String × Tree)} (h : w.tree = .map entries) :
    ∃ m : TypedMap, w = .map m ∧ (m.entries.map fun e => (e.1, e.2.tree)) = entries := by
  cases w with
  | null => cases h
  | scalar s => cases h
  | array a => rw [tree_array] at h; cases h
  | map m =>
    rw [tree_map] at h
    exact ⟨m, rfl, Tree.map.inj h⟩

end Value

/-! ## Readers that see the data only -/

/-- Lists with the same image under one function have the same image under any that follows it. -/
theorem map_eq_map_of_imp {α β γ : Type} {f : α → β} {g : α → γ} {xs ys : List α}
    (himp : ∀ x ∈ xs, ∀ y, f x = f y → g x = g y) (h : xs.map f = ys.map f) :
    xs.map g = ys.map g := by
  induction xs generalizing ys with
  | nil =>
    rw [List.map_eq_nil_iff.mp h.symm]
  | cons x xs ih =>
    cases ys with
    | nil => cases h
    | cons y ys =>
      obtain ⟨hhead, htail⟩ := List.cons.inj h
      have hfirst : g x = g y := himp x List.mem_cons_self y hhead
      have hrest : xs.map g = ys.map g := ih (fun z hz => himp z (List.mem_cons_of_mem x hz)) htail
      rw [List.map_cons, List.map_cons, hfirst, hrest]

/-- **A reader that looks at a container through its elements or entries** sees the data only. -/
theorem Value.congr_of_tree {α : Type} {read : Value → α}
    (harray : ∀ a b : TypedArray, a.toList.map read = b.toList.map read →
      read (.array a) = read (.array b))
    (hmap : ∀ m n : TypedMap,
      (m.entries.map fun e => (e.1, read e.2)) = (n.entries.map fun e => (e.1, read e.2)) →
      read (.map m) = read (.map n))
    {v w : Value} (h : v.tree = w.tree) : read v = read w := by
  -- `w` has the shape of `v` at every level, so it is recovered one constructor at a time
  induction v generalizing w with
  | null => rw [eq_null_of_tree h.symm]
  | scalar s => rw [eq_scalar_of_tree h.symm]
  | array a ih =>
    rw [tree_array] at h
    obtain ⟨b, rfl, hitems⟩ := exists_array_of_tree h.symm
    exact harray a b (map_eq_map_of_imp (fun v hv w => ih v hv) hitems.symm)
  | map m ih =>
    rw [tree_map] at h
    obtain ⟨n, rfl, hentries⟩ := exists_map_of_tree h.symm
    refine hmap m n (map_eq_map_of_imp (fun e he e' heq => ?_) hentries.symm)
    obtain ⟨hkey, hvalue⟩ := Prod.mk.inj heq
    rw [hkey, ih e he hvalue]

/-- The text inside a container shows the data only. -/
theorem Value.nestedText_congr {v w : Value} (h : v.tree = w.tree) :
    v.nestedText = w.nestedText := by
  refine congr_of_tree (fun a b hitems => ?_) (fun m n hentries => ?_) h
  · rw [nestedText, nestedText, TypedArray.text_eq, TypedArray.text_eq, hitems]
  · -- The lines of a map are read off its keys and the texts of its values.
    have hline (m : TypedMap) :
        (m.entries.map fun e => quoted e.1.toList ++ ':' :: e.2.nestedText) =
          (m.entries.map fun e => (e.1, e.2.nestedText)).map fun p =>
            quoted p.1.toList ++ ':' :: p.2 := by
      rw [List.map_map]
      rfl
    rw [nestedText, nestedText, TypedMap.text_eq, TypedMap.text_eq, hline, hline, hentries]

/-- **The text of a value shows its data only.** -/
theorem Value.text_congr {v w : Value} (h : v.tree = w.tree) : v.text = w.text := by
  have hnested : v.nestedText = w.nestedText := nestedText_congr h
  refine congrArg String.ofList ?_
  -- only a string that stands by itself is not written as it is inside a container
  cases v with
  | null => rw [eq_null_of_tree h.symm]
  | scalar s => rw [eq_scalar_of_tree h.symm]
  | array a =>
    rw [tree_array] at h
    obtain ⟨b, rfl, -⟩ := exists_array_of_tree h.symm
    exact hnested
  | map m =>
    rw [tree_map] at h
    obtain ⟨n, rfl, -⟩ := exists_map_of_tree h.symm
    exact hnested

/-- **The document of a value shows its data only**, and so does the failure where there is none. -/
theorem Value.toJson_congr {v w : Value} (h : v.tree = w.tree) : v.toJson = w.toJson := by
  refine congr_of_tree (fun a b hitems => ?_) (fun m n hentries => ?_) h
  · have hloop (vs : List Value) : vs.mapM toJson = (vs.map toJson).mapM id := by
      rw [List.mapM_map]
      rfl
    rw [toJson_array, toJson_array, hloop, hloop, hitems]
  · have hloop (es : List (String × Value)) : es.mapM entryToJson =
        (es.map fun e => (e.1, e.2.toJson)).mapM fun p => p.2.map fun item => (p.1, item) := by
      rw [List.mapM_map]
      rfl
    rw [toJson_map, toJson_map, hloop, hloop, hentries]

/-- Two values that differ in declarations at most. -/
structure Value.SameData (w v : Value) : Prop where
  tree : w.tree = v.tree
  text : w.text = v.text
  /-- Both have the same document, or neither has one and for the same reason. -/
  document : w.toJson = v.toJson

/-- Text and document are read off the tree, so two values with one tree hold the same data. -/
theorem Value.SameData.of_tree {v w : Value} (h : w.tree = v.tree) : w.SameData v :=
  ⟨h, text_congr h, toJson_congr h⟩

/-! ## Conversion to JSON -/

/-- A converted array has the tree of its source once each converted element has. -/
theorem TypedArray.tree_of_encode {a out : TypedArray} {depth : Depth}
    (hitems : ∀ v ∈ a.toList, ∀ allowed inner w, v.encodeElement allowed inner = .ok w →
      w.tree = v.tree)
    (h : a.encode depth = .ok out) : (Value.array out).tree = (Value.array a).tree := by
  rw [Value.tree_array, Value.tree_array]
  refine congrArg Tree.array ?_
  -- arrays of some scalar types are copied as they are, others are converted element by element
  obtain ⟨inner, -, ⟨-, rfl⟩ | ⟨ws, hws, rfl⟩⟩ := encode_eq_ok h
  · rfl
  · have hall := mapM_eq_ok_iff.mp hws
    exact (map_eq_map_of_forall₂ hall fun v hv w _ hw => (hitems v hv _ inner w hw).symm).symm

/-- A rebuilt object has the tree of its source once each converted entry has. The keys of the
source are distinct, so no entry overwrites an earlier one and the order stays. -/
theorem TypedMap.tree_of_rebuild {m out : TypedMap} {target : Ty} {depth : Depth}
    (hdistinct : Entries.Distinct m.entries)
    (hentries : ∀ e ∈ m.entries, ∀ inner w, e.2.encodeEntry target inner = .ok w →
      w.tree = e.2.tree)
    (h : m.rebuild target depth = .ok out) : (Value.map out).tree = (Value.map m).tree := by
  rw [Value.tree_map, Value.tree_map]
  refine congrArg Tree.map ?_
  obtain ⟨inner, -, es, hes, rfl⟩ := (rebuild_eq_ok_iff hdistinct).mp h
  refine (map_eq_map_of_forall₂ hes fun e he e' _ ⟨hkey, hencode, _⟩ => ?_).symm
  rw [hkey, hentries e he inner e'.2 hencode]

/-- **Conversion to JSON keeps the data**, of elements and of entries. -/
theorem Value.tree_of_encode {v : Value} (hkeyed : v.Keyed) :
    (∀ allowed depth w, v.encodeElement allowed depth = .ok w → w.tree = v.tree) ∧
      ∀ target depth w, v.encodeEntry target depth = .ok w → w.tree = v.tree := by
  -- an array inside a map is converted as an entry and a map inside an array as an element, so the
  -- two statements are proved together
  induction v with
  | null =>
    constructor <;> intro _ _ w h <;> cases h <;> rfl
  | scalar s =>
    have hscalar (allowed w) (h : s.encode allowed = .ok w) : w.tree = (Value.scalar s).tree := by
      rw [(Scalar.encode_eq_ok_iff.mp h).2]
    exact ⟨fun allowed _ w => hscalar allowed w, fun _ _ w => hscalar true w⟩
  | array a ih =>
    have harray (depth w) (h : (a.encode depth).map Value.array = .ok w) :
        w.tree = (Value.array a).tree := by
      obtain ⟨out, hout, rfl⟩ := map_eq_ok_iff.mp h
      exact TypedArray.tree_of_encode (fun v hv => (ih v hv (hkeyed.item hv)).1) hout
    exact ⟨fun _ => harray, fun _ => harray⟩
  | map m ih =>
    have hmap (target depth w) (h : m.encode target depth = .ok w) :
        w.tree = (Value.map m).tree := by
      -- a nested JSON object passes through; every other map is rebuilt
      rcases TypedMap.encode_eq_ok h with ⟨-, rfl⟩ | ⟨out, hout, rfl⟩
      · rfl
      · exact TypedMap.tree_of_rebuild hkeyed.self
          (fun e he => (ih e he (hkeyed.entry he)).2 target) hout
    exact ⟨fun _ => hmap .json, hmap⟩

/-- **Conversion to JSON keeps the data** at each entry point of the library, for every target and
limit. A converted value that is put into an object changes what is under its key and nothing
else. -/
theorem encode_keepsData (limit : Nat) :
    (∀ a out : TypedArray, (Value.array a).Keyed → a.encode (.root limit) = .ok out →
      (Value.array out).SameData (.array a)) ∧
    (∀ (m out : TypedMap) (target : Ty), (Value.map m).Keyed →
      m.rebuild target (.root limit) = .ok out → (Value.map out).SameData (.map m)) ∧
    (∀ (v w : Value) (target : Ty), v.Keyed → v.encodeMember target (.root limit) = .ok w →
      w.SameData v) ∧
    (∀ (v : Value) (out : TypedMap), v.Keyed → v.encodeRecord (.root limit) = .ok out →
      (Value.map out).SameData v) ∧
    ∀ (object after : TypedMap) (key : String) (v : Value) (target : Ty), v.Keyed →
      object.putEncoded key v target (.root limit) = .ok after →
      after.ty = object.ty ∧ after.frozen = object.frozen ∧
        after.keys = (if key ∈ object.keys then object.keys else object.keys ++ [key]) ∧
        (∀ other, other ≠ key → after.get? other = object.get? other) ∧
        ∃ w, after.get? key = some w ∧ w.SameData v := by
  have hrebuild (m out : TypedMap) (target : Ty) (hkeyed : (Value.map m).Keyed)
      (h : m.rebuild target (.root limit) = .ok out) : (Value.map out).SameData (.map m) := by
    refine .of_tree (TypedMap.tree_of_rebuild hkeyed.self (fun e he => ?_) h)
    exact (Value.tree_of_encode (hkeyed.entry he)).2 target
  refine ⟨fun a out hkeyed h => ?_, hrebuild, fun v w target hkeyed h => ?_,
    fun v out hkeyed h => ?_, fun object after key v target hkeyed h => ?_⟩
  · refine .of_tree (TypedArray.tree_of_encode (fun v hv => ?_) h)
    exact (Value.tree_of_encode (hkeyed.item hv)).1
  · have hentry : v.encodeEntry target (.root limit) = .ok w := Value.encodeMember_eq_ok h
    exact .of_tree ((Value.tree_of_encode hkeyed).2 target _ w hentry)
  · obtain ⟨m, rfl, hm⟩ := Value.encodeRecord_eq_ok h
    exact hrebuild m out .json hkeyed hm
  · rw [TypedMap.putEncoded_eq] at h
    obtain ⟨w, hentry, hput⟩ := TypedMap.store_eq_ok_iff.mp h
    -- what `put` stores is the encoding of `v`: the frame is read off `Entries.insert`
    obtain ⟨-, -, rfl⟩ := TypedMap.put_eq_ok_iff.mp hput
    have hlookup (other : String) := Entries.lookup_insert object.entries key other w
    refine ⟨rfl, rfl, Entries.keys_insert object.entries key w, fun other hother => ?_, w, ?_, ?_⟩
    · exact (hlookup other).trans (if_neg hother)
    · exact (hlookup key).trans (if_pos rfl)
    · exact .of_tree ((Value.tree_of_encode hkeyed).2 target _ w hentry)

/-- A record with an array of maps and with an optional field. -/
def RecordTy.invoice : RecordTy where
  name := "Invoice"
  fields := [("lines", .ofTy (.array (.mapOf .decimal))), ("note", .ofTy (.optional .string))]
  rest := none

/-- An invoice with one line, which is frozen. -/
def Value.invoice : Value :=
  .map ⟨.record .invoice, [("lines", .array (.ofBoxed (.mapOf .decimal)
    [.map ⟨.mapOf .decimal, [("net", .decimal ⟨false, 150, 1, by decide, by decide⟩),
      ("tax", .decimal .zero)], true⟩])), ("note", .null)], false⟩

/-- The same invoice as a JSON object. -/
def TypedMap.invoiceObject : TypedMap :=
  ⟨.json, [("lines", .array (.ofBoxed .json
    [.map ⟨.json, [("net", .decimal ⟨false, 150, 1, by decide, by decide⟩),
      ("tax", .decimal .zero)], false⟩])), ("note", .null)], false⟩

theorem encode_keepsData_invoice :
    Value.invoice.encodeRecord (.root 3) = .ok .invoiceObject ∧
      (Value.map .invoiceObject).SameData .invoice := by
  have hkeyed : Value.invoice.Keyed := by
    simp [Value.Keyed, Value.invoice, RecordTy.invoice, Field.ofTy, Ty.optional, Ty.zero,
      Part.HasDistinctKeys, Entries.Distinct, Entries.keys]
  have hencode : Value.invoice.encodeRecord (.root 3) = .ok .invoiceObject := rfl
  obtain ⟨-, -, -, hrecord, -⟩ := encode_keepsData 3
  exact ⟨hencode, hrecord .invoice .invoiceObject hkeyed hencode⟩

end TypedJson
