import TypedJson.Scalar
import TypedJson.Text.Quoted

/-!
# TypedJson — where a piece of a text ends

The text of a container is put together from quoted strings, from the plain texts of numbers and
words, and from the signs between them. Each of the two kinds of pieces can be cut off from what
follows it, so no two texts can be the same in different ways:

* **`quoted_append_unique`** — a quoted string ends at the first quote that is not escaped;
* **`IsPlainText.append_unique`** — a plain text ends where a character comes that no plain text
  has;
* **`Scalar.isPlainText`** — the texts of all scalars but strings are plain.
-/

namespace TypedJson

/-! ## Quoted strings -/

namespace Quoted

/-- The value of a hexadecimal digit in lower case. -/
def hexValue (c : Char) : Nat := (List.range 16).findIdx (Nat.digitChar · == c)

/-- Reads what stands behind a backslash: the character that is meant and what follows. -/
def unescape : List Char → Option (Char × List Char)
  | '"' :: rest => some ('"', rest)
  | '\\' :: rest => some ('\\', rest)
  | 'b' :: rest => some ('\x08', rest)
  | 'f' :: rest => some ('\x0c', rest)
  | 'n' :: rest => some ('\n', rest)
  | 'r' :: rest => some ('\r', rest)
  | 't' :: rest => some ('\t', rest)
  | 'u' :: '0' :: '0' :: high :: low :: rest =>
    some (.ofNat (16 * hexValue high + hexValue low), rest)
  | _ => none

/-- Reads one character between quotes. -/
def read : List Char → Option (Char × List Char)
  | [] => none
  | c :: rest => if c = '\\' then unescape rest else some (c, rest)

/-- The two digits of a control character give its code back; there are 32 cases. -/
theorem hexValue_hexPair : ∀ n < 0x20,
    16 * hexValue (Nat.digitChar (n / 16)) + hexValue (Nat.digitChar (n % 16)) = n := by
  decide

/-- **What is written for a character reads back as that character**, whatever follows. -/
theorem read_escape (c : Char) (rest : List Char) : read (escape c ++ rest) = some (c, rest) := by
  unfold escape
  split
  case h_8 hbackslash _ _ _ _ _ =>
    split
    · rename_i hcontrol
      show some (Char.ofNat _, rest) = some (c, rest)
      rw [hexValue_hexPair c.toNat hcontrol, Char.ofNat_toNat]
    · exact if_neg hbackslash
  all_goals rfl

/-- What is written for a character does not begin with a quote. -/
theorem escape_ne_quote (c : Char) (rest rest' : List Char) : escape c ++ rest ≠ '"' :: rest' := by
  -- every escape starts with a backslash
  have hbackslash (escaped : List Char) : '\\' :: escaped ≠ '"' :: rest' := by
    intro h
    exact absurd (List.cons.inj h).1 (by decide)
  unfold escape
  split
  -- only here a character stands for itself, and it is not a quote
  case h_8 hquote _ _ _ _ _ _ =>
    split
    · exact hbackslash _
    · exact fun h => hquote (List.cons.inj h).1
  all_goals exact hbackslash _

end Quoted

/-- **A quoted string ends where its closing quote is**: the string and what follows are determined
by the whole. -/
theorem quoted_append_unique {text text' rest rest' : List Char}
    (h : quoted text ++ rest = quoted text' ++ rest') : text = text' ∧ rest = rest' := by
  -- behind the opening quotes the strings are read side by side
  replace h : text.flatMap Quoted.escape ++ ('"' :: rest) =
      text'.flatMap Quoted.escape ++ ('"' :: rest') := by
    simpa [quoted] using h
  induction text generalizing text' with
  | nil =>
    cases text' with
    | nil => exact ⟨rfl, (List.cons.inj h).2⟩
    | cons c' cs' =>
      rw [List.flatMap_cons, List.append_assoc] at h
      exact absurd h.symm (Quoted.escape_ne_quote c' _ _)
  | cons c cs ih =>
    rw [List.flatMap_cons, List.append_assoc] at h
    cases text' with
    | nil => exact absurd h (Quoted.escape_ne_quote c _ _)
    | cons c' cs' =>
      rw [List.flatMap_cons, List.append_assoc] at h
      have hread := congrArg Quoted.read h
      rw [Quoted.read_escape, Quoted.read_escape] at hread
      obtain ⟨rfl, hrest⟩ := Prod.mk.inj (Option.some.inj hread)
      obtain ⟨rfl, hsame⟩ := ih hrest
      exact ⟨rfl, hsame⟩

/-! ## Plain texts -/

/-- A character of numbers and words. -/
def isPlainChar (c : Char) : Bool := c.isAlphanum || c == '-' || c == '.'

/-- A text that is not empty and has no character but those of numbers and words. -/
structure IsPlainText (text : List Char) : Prop where
  ne_nil : text ≠ []
  plain : ∀ c ∈ text, isPlainChar c = true

/-- What follows a text does not go on as a number or a word would. -/
def Separated (rest : List Char) : Prop := rest.takeWhile isPlainChar = []

theorem separated_nil : Separated [] := rfl

/-- A text that goes on with a sign is separated: no plain text has it. -/
theorem separated_cons {c : Char} {rest : List Char} (h : isPlainChar c = false) :
    Separated (c :: rest) := by
  simp [Separated, h]

namespace IsPlainText

variable {text text' : List Char}

/-- **A plain text ends where it is separated from what follows.** -/
theorem append_unique {rest rest' : List Char} (htext : IsPlainText text)
    (htext' : IsPlainText text') (hrest : Separated rest) (hrest' : Separated rest')
    (h : text ++ rest = text' ++ rest') : text = text' ∧ rest = rest' := by
  have hcut {text rest : List Char} (htext : IsPlainText text) (hrest : Separated rest) :
      (text ++ rest).takeWhile isPlainChar = text := by
    rw [List.takeWhile_append_of_pos htext.plain, hrest, List.append_nil]
  have hsame : text = text' := by
    rw [← hcut htext hrest, h, hcut htext' hrest']
  rw [hsame] at h
  exact ⟨hsame, List.append_cancel_left h⟩

/-- A word that is given by its letters. -/
theorem word {c : Char} (h : (c :: text).all isPlainChar = true) : IsPlainText (c :: text) :=
  ⟨List.cons_ne_nil c text, List.all_eq_true.mp h⟩

theorem signed (h : IsPlainText text) (negative : Bool) :
    IsPlainText (signed negative text) := by
  cases negative with
  | false => exact h
  | true => exact ⟨List.cons_ne_nil _ _, List.forall_mem_cons.mpr ⟨rfl, h.plain⟩⟩

/-- Zeros and digits are plain, and there is at least one digit. -/
theorem paddedDigits (n width : Nat) : IsPlainText (paddedDigits n width) where
  ne_nil h := Nat.toDigits_ne_nil (List.append_eq_nil_iff.mp h).2
  plain c hc := by
    rcases List.mem_append.mp hc with hzero | hdigit
    · rw [List.eq_of_mem_replicate hzero]
      rfl
    · have hdigit : c.isDigit = true := Nat.isDigit_of_mem_toDigits (by decide) (by decide) hdigit
      simp [isPlainChar, Char.isAlphanum, hdigit]

theorem fixedPoint (mantissa places : Nat) : IsPlainText (fixedPoint mantissa places) := by
  have hdigits := paddedDigits mantissa (places + 1)
  unfold TypedJson.fixedPoint
  dsimp only
  split
  · exact hdigits
  · refine ⟨by simp, fun c hc => ?_⟩
    rcases List.mem_append.mp hc with hwhole | hdecimals
    · exact hdigits.plain c (List.mem_of_mem_take hwhole)
    · rcases List.mem_cons.mp hdecimals with rfl | hdecimals
      · rfl
      · exact hdigits.plain c (List.mem_of_mem_drop hdecimals)

theorem integerText (n : Int) : IsPlainText (integerText n) := (fixedPoint n.natAbs 0).signed _

end IsPlainText

/-- The text of a float is digits, or one of the words for NaN and the infinities. -/
theorem Binary64.isPlainText (x : Binary64) : IsPlainText x.text := by
  unfold text
  split
  · exact .word rfl
  · split
    · exact (IsPlainText.fixedPoint _ _).signed _
    · exact (IsPlainText.word rfl).signed _

theorem Decimal.isPlainText (d : Decimal) : IsPlainText d.text :=
  (IsPlainText.fixedPoint _ _).signed _

/-- **Scalars other than strings have plain texts**, floats that are no numbers among them. -/
theorem Scalar.isPlainText {s : Scalar} (h : s.kind ≠ .string) : IsPlainText s.text := by
  cases s with
  | int i => exact .integerText _
  | float x => exact x.isPlainText
  | decimal d => exact d.isPlainText
  | string s => exact absurd rfl h
  | boolean b => cases b <;> exact .word rfl
  | byte b => exact .integerText _

end TypedJson
