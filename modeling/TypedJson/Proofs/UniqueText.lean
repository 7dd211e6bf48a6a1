import TypedJson.Proofs.Induction
import TypedJson.Proofs.Lexemes
import TypedJson.Proofs.Loops
import TypedJson.Proofs.Nesting

/-!
# TypedJson — the text of a container can be read in one way

Containers are converted to `string` by writing them out. Nothing is lost on that way but the
declarations and the kinds of numbers: the text says where each element begins and ends, whatever
stands in the strings and in the keys.

* **`Value.SameWritten`** — two values of the same shape, with the same keys, the same strings and
  the same texts at all other leaves;
* **`SelfDelimiting`** — a text that says itself where it ends;
* **`commaSeparated_append_unique`** — lists of such texts do so up to their closing bracket;
* **`Value.nestedText_selfDelimiting`** — and so do the texts of values inside containers;
* **`text_eq_iff_sameWritten`** — containers have the same text exactly if they are written the
  same.
-/

namespace TypedJson

/-! ## Lists of texts -/

/-- Each text but the first has a comma in front of it. -/
theorem commaSeparated_cons (text : List Char) (texts : List (List Char)) :
    commaSeparated (text :: texts) = text ++ texts.flatMap fun text => ',' :: ' ' :: text := by
  induction texts generalizing text with
  | nil => simp [commaSeparated]
  | cons next rest ih =>
    rw [commaSeparated, ih next, List.flatMap_cons]
    · rfl
    · nofun

section

variable {α : Type} {text : α → List Char} {R : α → α → Prop} {close : Char}
  {xs ys : List α} {rest rest' : List Char}

/-- The text of `x` says where it ends. Where it and another text, each before something that is
separated from it, make up the same whole, the elements are related and the same follows. -/
def SelfDelimiting (text : α → List Char) (R : α → α → Prop) (x : α) : Prop :=
  ∀ y rest rest', Separated rest → Separated rest' → text x ++ rest = text y ++ rest' →
    R x y ∧ rest = rest'

/-- A comma or the bracket separates an element from what follows it. -/
theorem separated_following (hclose : isPlainChar close = false) (zs : List α) (rest : List Char) :
    Separated ((zs.flatMap fun z => ',' :: ' ' :: text z) ++ close :: rest) := by
  cases zs with
  | nil => exact separated_cons hclose
  | cons z zs => exact separated_cons rfl

/-- Behind the first element the elements follow each other up to the closing bracket. -/
theorem following_append_unique (hclose : isPlainChar close = false) (hcomma : close ≠ ',')
    (hitems : ∀ x ∈ xs, SelfDelimiting text R x)
    (h : (xs.flatMap fun x => ',' :: ' ' :: text x) ++ close :: rest =
      (ys.flatMap fun y => ',' :: ' ' :: text y) ++ close :: rest') :
    List.Forall₂ R xs ys ∧ rest = rest' := by
  induction xs generalizing ys with
  | nil =>
    cases ys with
    | nil => exact ⟨.nil, (List.cons.inj h).2⟩
    | cons y ys => exact absurd (List.cons.inj h).1 hcomma
  -- either list may have ended: the closing sign is not a comma
  | cons x xs ih =>
    cases ys with
    | nil => exact absurd (List.cons.inj h).1.symm hcomma
    | cons y ys =>
      have hnext : text x ++ ((xs.flatMap fun x => ',' :: ' ' :: text x) ++ close :: rest) =
          text y ++ ((ys.flatMap fun y => ',' :: ' ' :: text y) ++ close :: rest') := by
        simpa using h
      obtain ⟨hR, hfollowing⟩ := hitems x List.mem_cons_self y _ _
        (separated_following hclose xs rest) (separated_following hclose ys rest') hnext
      obtain ⟨hall, hrest⟩ := ih (fun z hz => hitems z (List.mem_cons_of_mem x hz)) hfollowing
      exact ⟨.cons hR hall, hrest⟩

/-- **A list of texts up to a closing bracket** determines the elements and what follows, if each
text says where it ends and none begins like the bracket. -/
theorem commaSeparated_append_unique (hclose : isPlainChar close = false) (hcomma : close ≠ ',')
    (hitems : ∀ x ∈ xs, SelfDelimiting text R x)
    (hfirst : ∀ x, ∃ c tail, text x = c :: tail ∧ c ≠ close)
    (h : commaSeparated (xs.map text) ++ close :: rest =
      commaSeparated (ys.map text) ++ close :: rest') :
    List.Forall₂ R xs ys ∧ rest = rest' := by
  -- no text of an item starts with the closing sign, so an empty list is not mistaken for another
  have hapart (x : α) (tail rest : List Char) : text x ++ tail ≠ close :: rest := by
    obtain ⟨c, cs, hx, hne⟩ := hfirst x
    rw [hx]
    exact fun h => hne (List.cons.inj h).1
  have hcons (x : α) (zs : List α) (rest : List Char) :
      commaSeparated ((x :: zs).map text) ++ close :: rest =
        text x ++ ((zs.flatMap fun z => ',' :: ' ' :: text z) ++ close :: rest) := by
    rw [List.map_cons, commaSeparated_cons, List.append_assoc, List.flatMap_map]
  cases xs with
  | nil =>
    cases ys with
    | nil => exact ⟨.nil, (List.cons.inj h).2⟩
    | cons y ys =>
      rw [hcons] at h
      exact absurd h.symm (hapart y _ _)
  | cons x xs =>
    rw [hcons] at h
    cases ys with
    | nil => exact absurd h (hapart x _ _)
    | cons y ys =>
      rw [hcons] at h
      obtain ⟨hR, hfollowing⟩ := hitems x List.mem_cons_self y _ _
        (separated_following hclose xs rest) (separated_following hclose ys rest') h
      obtain ⟨hall, hrest⟩ := following_append_unique hclose hcomma
        (fun z hz => hitems z (List.mem_cons_of_mem x hz)) hfollowing
      exact ⟨.cons hR hall, hrest⟩

end

/-! ## Values that are written the same -/

/-- What the first character of a text says about the value. -/
inductive Shape where
  | array
  | map
  | string
  /-- Null, or a scalar that is no string. -/
  | leaf

/-- The shape of a text that begins with this character, if any does. -/
def Shape.ofFirst? (c : Char) : Option Shape :=
  if c = '[' then some .array
  else if c = '{' then some .map
  else if c = '"' then some .string
  else if isPlainChar c then some .leaf
  else none

theorem Shape.ofFirst?_of_isPlainChar {c : Char} (h : isPlainChar c = true) :
    ofFirst? c = some .leaf := by
  have hbracket : c ≠ '[' := by
    rintro rfl
    cases h
  have hbrace : c ≠ '{' := by
    rintro rfl
    cases h
  have hquote : c ≠ '"' := by
    rintro rfl
    cases h
  rw [ofFirst?, if_neg hbracket, if_neg hbrace, if_neg hquote, if_pos h]

namespace Value

/-- The shape of a value. -/
def shape : Value → Shape
  | .null => .leaf
  | .scalar s => if s.kind = .string then .string else .leaf
  | .array _ => .array
  | .map _ => .map

/-- Values that are written the same: of the same shape, with the same keys in the same order, with
the same strings, and with the same texts at all other leaves. -/
inductive SameWritten : Value → Value → Prop
  | string (s : String) : SameWritten (.string s) (.string s)
  | leaf {v w : Value} (hv : v.shape = .leaf) (hw : w.shape = .leaf)
    (text : v.nestedText = w.nestedText) : SameWritten v w
  | array {a b : TypedArray} (size : a.size = b.size)
    (items : ∀ x y, (x, y) ∈ a.toList.zip b.toList → SameWritten x y) :
    SameWritten (.array a) (.array b)
  | map {m n : TypedMap} (keys : m.keys = n.keys)
    (values : ∀ e e', (e, e') ∈ m.entries.zip n.entries → SameWritten e.2 e'.2) :
    SameWritten (.map m) (.map n)

/-- Leaves are written as plain texts: `null`, and the scalars that are not strings. -/
theorem isPlainText_of_leaf {v : Value} (h : v.shape = .leaf) : IsPlainText v.nestedText := by
  cases v with
  | null => exact .word rfl
  | scalar s =>
    have hkind : s.kind ≠ .string := by
      intro hstring
      rw [shape, if_pos hstring] at h
      cases h
    have htext : (Value.scalar s).nestedText = s.text := by
      cases s with
      | string s => exact absurd rfl hkind
      | _ => rfl
    exact htext ▸ Scalar.isPlainText hkind
  | array a => cases h
  | map m => cases h

/-- The shape of a value shows in the first character of its text. -/
theorem exists_first (v : Value) :
    ∃ c tail, v.nestedText = c :: tail ∧ Shape.ofFirst? c = some v.shape := by
  have hleaf (h : v.shape = .leaf) :
      ∃ c tail, v.nestedText = c :: tail ∧ Shape.ofFirst? c = some v.shape := by
    have htext := isPlainText_of_leaf h
    obtain ⟨c, tail, hc⟩ := List.exists_cons_of_ne_nil htext.ne_nil
    have hplain : isPlainChar c = true := htext.plain c (hc ▸ List.mem_cons_self)
    exact ⟨c, tail, hc, h ▸ Shape.ofFirst?_of_isPlainChar hplain⟩
  -- the first character tells the shape: a quote, a bracket, a brace, or a plain one
  cases v with
  | null => exact hleaf rfl
  | scalar s =>
    cases s with
    | string s => exact ⟨'"', _, rfl, rfl⟩
    | _ => exact hleaf rfl
  | array a => exact ⟨'[', _, by rw [nestedText, TypedArray.text_eq], rfl⟩
  | map m => exact ⟨'{', _, by rw [nestedText, TypedMap.text_eq], rfl⟩

/-- Texts that begin the same are of values of the same shape. -/
theorem shape_eq_of_append {v w : Value} {rest rest' : List Char}
    (h : v.nestedText ++ rest = w.nestedText ++ rest') : v.shape = w.shape := by
  obtain ⟨c, tail, hv, hshape⟩ := v.exists_first
  obtain ⟨c', tail', hw, hshape'⟩ := w.exists_first
  rw [hv, hw] at h
  rw [(List.cons.inj h).1, hshape'] at hshape
  exact (Option.some.inj hshape).symm

theorem exists_string_of_shape {v : Value} (h : v.shape = .string) : ∃ s, v = .string s := by
  cases v with
  | scalar s =>
    cases s with
    | string s => exact ⟨s, rfl⟩
    | _ => cases h
  | _ => cases h

theorem exists_array_of_shape {v : Value} (h : v.shape = .array) : ∃ a, v = .array a := by
  cases v with
  | array a => exact ⟨a, rfl⟩
  | scalar s => cases s <;> cases h
  | _ => cases h

theorem exists_map_of_shape {v : Value} (h : v.shape = .map) : ∃ m, v = .map m := by
  cases v with
  | map m => exact ⟨m, rfl⟩
  | scalar s => cases s <;> cases h
  | _ => cases h

/-- A leaf ends where the plain characters do, and two leaves with one text are written the same. -/
theorem selfDelimiting_leaf {v : Value} (hleaf : v.shape = .leaf) :
    SelfDelimiting nestedText SameWritten v := by
  intro w rest rest' hrest hrest' h
  have hleaf' : w.shape = .leaf := (shape_eq_of_append h).symm.trans hleaf
  obtain ⟨htext, hsame⟩ := (isPlainText_of_leaf hleaf).append_unique (isPlainText_of_leaf hleaf')
    hrest hrest' h
  exact ⟨.leaf hleaf hleaf' htext, hsame⟩

/-- The key of an entry ends with its quote, and then it is up to the value. -/
theorem selfDelimiting_entry {e : String × Value}
    (hvalue : SelfDelimiting nestedText SameWritten e.2) :
    SelfDelimiting (fun e : String × Value => quoted e.1.toList ++ ':' :: e.2.nestedText)
      (fun e e' => e.1 = e'.1 ∧ SameWritten e.2 e'.2) e := by
  intro e' rest rest' hrest hrest' h
  rw [List.append_assoc, List.append_assoc] at h
  obtain ⟨hkey, hbehind⟩ := quoted_append_unique h
  obtain ⟨hsame, hfollowing⟩ := hvalue e'.2 rest rest' hrest hrest' (List.cons.inj hbehind).2
  exact ⟨⟨String.toList_inj.mp hkey, hsame⟩, hfollowing⟩

/-- **The text of a value inside a container says where it ends.** The induction is over one of the
two values; that the other is of the same shape shows in its first character. -/
theorem nestedText_selfDelimiting (v : Value) : SelfDelimiting nestedText SameWritten v := by
  -- on the value on the left; the shape of the other one is read off the common text
  induction v with
  | null => exact selfDelimiting_leaf rfl
  | scalar s =>
    cases s with
    | string s =>
      intro w rest rest' _ _ h
      obtain ⟨s', rfl⟩ := exists_string_of_shape (shape_eq_of_append h).symm
      obtain ⟨htext, hrest⟩ := quoted_append_unique h
      cases String.toList_inj.mp htext
      exact ⟨.string s, hrest⟩
    | _ => exact selfDelimiting_leaf rfl
  | array a ih =>
    intro w rest rest' _ _ h
    obtain ⟨b, rfl⟩ := exists_array_of_shape (shape_eq_of_append h).symm
    have hinside : commaSeparated (a.toList.map nestedText) ++ ']' :: rest =
        commaSeparated (b.toList.map nestedText) ++ ']' :: rest' := by
      simpa [nestedText, TypedArray.text_eq] using h
    have hfirst (x : Value) : ∃ c tail, x.nestedText = c :: tail ∧ c ≠ ']' := by
      obtain ⟨c, tail, hx, hshape⟩ := x.exists_first
      refine ⟨c, tail, hx, ?_⟩
      rintro rfl
      cases hshape
    obtain ⟨hall, hrest⟩ := commaSeparated_append_unique rfl (by decide) ih hfirst hinside
    exact ⟨.array hall.length_eq fun x y hxy => List.forall₂_zip hall hxy, hrest⟩
  | map m ih =>
    intro w rest rest' _ _ h
    obtain ⟨n, rfl⟩ := exists_map_of_shape (shape_eq_of_append h).symm
    -- an entry is its quoted key, a colon and the text of its value
    let line (e : String × Value) : List Char := quoted e.1.toList ++ ':' :: e.2.nestedText
    have hinside : commaSeparated (m.entries.map line) ++ '}' :: rest =
        commaSeparated (n.entries.map line) ++ '}' :: rest' := by
      simpa [nestedText, TypedMap.text_eq] using h
    have hfirst (e : String × Value) : ∃ c tail, line e = c :: tail ∧ c ≠ '}' :=
      ⟨'"', _, rfl, by decide⟩
    obtain ⟨hall, hrest⟩ := commaSeparated_append_unique rfl (by decide)
      (fun e he => selfDelimiting_entry (ih e he)) hfirst hinside
    have hkeys : m.keys = n.keys := map_eq_map_of_forall₂ hall fun _ _ _ _ hR => hR.1
    exact ⟨.map hkeys fun e e' hee' => (List.forall₂_zip hall hee').2, hrest⟩

/-- What is written the same has the same text. -/
theorem SameWritten.nestedText_eq {v w : Value} (h : SameWritten v w) :
    v.nestedText = w.nestedText := by
  induction h with
  | string s => rfl
  | leaf hv hw text => exact text
  | @array a b size items ih =>
    have hall := List.forall₂_iff_zip.mpr ⟨size, fun hxy => ih _ _ hxy⟩
    rw [nestedText, nestedText, TypedArray.text_eq, TypedArray.text_eq,
      map_eq_map_of_forall₂ hall fun _ _ _ _ htext => htext]
  | @map m n keys values ih =>
    have hall := Entries.forall₂_of_keys_eq keys (R := fun v w => v.nestedText = w.nestedText) ih
    rw [nestedText, nestedText, TypedMap.text_eq, TypedMap.text_eq,
      map_eq_map_of_forall₂ hall fun e _ e' _ hline => by rw [hline.1, hline.2]]

/-- A container is written in the same way wherever it stands. -/
theorem chars_of_isContainer {v : Value} (h : v.IsContainer) : v.chars = v.nestedText := by
  cases v with
  | array a => rfl
  | map m => rfl
  | _ => exact h.elim

/-- A container that is converted to `string` becomes its text. -/
theorem eq_text_of_decode_string {v w : Value} (hcontainer : v.IsContainer) {depth : Depth}
    (h : Ty.string.decode depth v = .ok w) : w = .string v.text := by
  rw [Ty.decode_string_of_isContainer hcontainer] at h
  obtain ⟨-, -, hw⟩ := bind_eq_ok_iff.mp h
  exact (Except.ok.inj hw).symm

end Value

/-- **The text of a container can be read in one way.** Two containers have the same text exactly if
they are written the same, whatever quotes, commas, brackets or backslashes stand in their strings
and keys. So a conversion to `string` tells apart all containers that are not written the same. -/
theorem text_eq_iff_sameWritten {u v : Value} (hu : u.IsContainer) (hv : v.IsContainer) :
    (u.text = v.text ↔ u.SameWritten v) ∧
      ∀ (depth depth' : Depth) (s : Value), Ty.string.decode depth u = .ok s →
        Ty.string.decode depth' v = .ok s → u.SameWritten v := by
  have hiff : u.text = v.text ↔ u.SameWritten v := by
    constructor
    · intro h
      -- both texts with nothing after them: the end of the text separates too
      have hchars : u.nestedText ++ [] = v.nestedText ++ [] := by
        rw [List.append_nil, List.append_nil, ← Value.chars_of_isContainer hu,
          ← Value.chars_of_isContainer hv]
        exact String.ofList_injective h
      exact (u.nestedText_selfDelimiting v [] [] separated_nil separated_nil hchars).1
    · intro h
      refine congrArg String.ofList ?_
      rw [Value.chars_of_isContainer hu, Value.chars_of_isContainer hv, h.nestedText_eq]
  refine ⟨hiff, fun depth depth' s hsource hother => hiff.mp ?_⟩
  have hstrings := (Value.eq_text_of_decode_string hu hsource).symm.trans
    (Value.eq_text_of_decode_string hv hother)
  exact Scalar.string.inj (Value.scalar.inj hstrings)

/-- One string with quotes and a comma in it, and the two strings that it could be taken for. -/
theorem text_eq_iff_sameWritten_quotes :
    let one : Value := .array (.ofBoxed .json [.string "a\", \"b", .int 7])
    let two : Value := .array (.ofBoxed .json [.string "a", .string "b", .int 7])
    let bytes : Value := .array (.ofBoxed .any [.string "a\", \"b", .byte 7])
    one.text ≠ two.text ∧ one.SameWritten bytes := by
  intro one two bytes
  have hone : one.IsContainer := trivial
  have htwo : two.IsContainer := trivial
  have hbytes : bytes.IsContainer := trivial
  constructor
  · intro h
    have hsame : Value.SameWritten (.array _) (.array _) :=
      (text_eq_iff_sameWritten hone htwo).1.mp h
    cases hsame with
    | leaf hv => cases hv
    | array size => cases size
  · exact (text_eq_iff_sameWritten hone hbytes).1.mp rfl

end TypedJson
