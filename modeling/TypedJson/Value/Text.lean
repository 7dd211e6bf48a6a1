import TypedJson.Basic
import TypedJson.Text.Quoted

/-!
# TypedJson — the text of a value

Arrays are written as `[a, b]` and maps as `{"k":v, "l":w}`, in order. Inside a container strings
are quoted; a string by itself is written raw.
-/

namespace TypedJson

/-- Texts with a comma and a blank between them. -/
def commaSeparated : List (List Char) → List Char
  | [] => []
  | [text] => text
  | text :: rest => text ++ ',' :: ' ' :: commaSeparated rest

/-- The text of a scalar inside a container. -/
def Scalar.nestedText : Scalar → List Char
  | .string s => quoted s.toList
  | s => s.text

mutual

/-- The text of a value inside a container. -/
def Value.nestedText : Value → List Char
  | .null => ['n', 'u', 'l', 'l']
  | .scalar s => s.nestedText
  | .array a => a.text
  | .map m => m.text
termination_by structural v => v

def TypedArray.text : TypedArray → List Char
  | ⟨_, storage, _⟩ => '[' :: (commaSeparated storage.texts ++ [']'])
termination_by structural a => a

def Storage.texts : Storage → List (List Char)
  | .packed column => column.toScalars.map Scalar.nestedText
  | .boxed elements => Value.nestedTexts elements
termination_by structural s => s

def TypedMap.text : TypedMap → List Char
  | ⟨_, entries, _⟩ => '{' :: (commaSeparated (Value.entryTexts entries) ++ ['}'])
termination_by structural m => m

def Value.nestedTexts : List Value → List (List Char)
  | [] => []
  | v :: rest => v.nestedText :: Value.nestedTexts rest
termination_by structural vs => vs

def Value.entryTexts : List (String × Value) → List (List Char)
  | [] => []
  | (key, v) :: rest => (quoted key.toList ++ ':' :: v.nestedText) :: Value.entryTexts rest
termination_by structural es => es

end

/-- The loops over elements and over entries. Inside of a container every text is the nested one. -/
theorem Value.nestedTexts_eq_map (vs : List Value) :
    Value.nestedTexts vs = vs.map Value.nestedText := by
  induction vs with
  | nil => rfl
  | cons v rest ih => simp [Value.nestedTexts, ih]

theorem Value.entryTexts_eq_map (es : List (String × Value)) :
    Value.entryTexts es = es.map fun e => quoted e.1.toList ++ ':' :: e.2.nestedText := by
  induction es with
  | nil => rfl
  | cons e rest ih => simp [Value.entryTexts, ih]

/-- The characters of a value's text. -/
def Value.chars : Value → List Char
  | .string s => s.toList
  | v => v.nestedText

/-- The text of a value. -/
def Value.text (v : Value) : String := String.ofList v.chars

/-- A storage is written through its elements only. -/
theorem Storage.texts_eq (s : Storage) : s.texts = Value.nestedTexts s.toList := by
  cases s with
  | packed column =>
    simp only [Storage.texts, Storage.toList]
    induction column.toScalars with
    | nil => rfl
    | cons s ss ih => simp [Value.nestedTexts, Value.nestedText, ih]
  | boxed elements => rfl

/-- An array is written through its elements, whatever its type. -/
theorem TypedArray.text_eq (a : TypedArray) :
    a.text = '[' :: (commaSeparated (a.toList.map Value.nestedText) ++ [']']) := by
  cases a
  rw [text, Storage.texts_eq, Value.nestedTexts_eq_map, toList]

/-- A map is written through its entries, whatever its type. -/
theorem TypedMap.text_eq (m : TypedMap) :
    m.text = '{' :: (commaSeparated
      (m.entries.map fun e => quoted e.1.toList ++ ':' :: e.2.nestedText) ++ ['}']) := by
  cases m
  rw [text, Value.entryTexts_eq_map]

end TypedJson
