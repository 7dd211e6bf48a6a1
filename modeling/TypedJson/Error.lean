/-!
# TypedJson — errors

What can go wrong, with the names of types as they are shown. Errors are wrapped on their way out: a
failure inside a container gets the label of the place (`inField`), a failure of an accessor becomes
one of reading or of writing. Three things pass through unchanged wherever they come by: the
innermost label stays the only one, and neither a frozen value nor the depth limit is ever labelled.
-/

namespace TypedJson

/-- What a failed write is reported under. -/
inductive WriteReason where
  | inherentType
  | indexOutOfRange
  deriving DecidableEq

/-- A failure. -/
inductive Error where
  /-- A value of the wrong shape or type where a conversion expects another. -/
  | incompatible (expected found : String)
  /-- A scalar that the target type has no conversion for. -/
  | notCastable (target found : String)
  /-- A failure inside a container, with the field, the key or the index where it happened. -/
  | inField (field : String) (source : Error)
  /-- A write to a frozen container. -/
  | frozen (typeName : String)
  /-- A failed read of an element. -/
  | reading (detail : String)
  /-- A failed write of an element or a field. -/
  | writing (reason : WriteReason) (detail : String)
  /-- An index that is no position of the array. -/
  | indexOutOfRange (index : Int) (size : Nat)
  /-- A value that the declared type of its container does not admit. -/
  | inherentType (expected found : String)
  /-- More nested containers than allowed. -/
  | depthLimit (limit : Nat)
  deriving DecidableEq

def WriteReason.name : WriteReason → String
  | .inherentType => "InherentTypeViolation"
  | .indexOutOfRange => "IndexOutOfRange"

namespace Error

/-- The text of a failure. -/
def message : Error → String
  | incompatible expected found =>
    "incompatible types: expected '" ++ expected ++ "', found '" ++ found ++ "'"
  | notCastable target found =>
    "incompatible types: '" ++ found ++ "' cannot be cast to '" ++ target ++ "'"
  | inField field source => "error while mapping '" ++ field ++ "': " ++ source.message
  | frozen typeName => "modification not allowed on frozen value of type '" ++ typeName ++ "'"
  | reading detail => "failed to get element from json: " ++ detail
  | writing reason detail => reason.name ++ ": failed to set element to json: " ++ detail
  | indexOutOfRange index size =>
    "array index out of range: index: " ++ toString index ++ ", size: " ++ toString size
  | inherentType expected found =>
    "inherent type violation: expected '" ++ expected ++ "', found '" ++ found ++ "'"
  | depthLimit limit => "maximum conversion depth of " ++ toString limit ++ " exceeded"

def isFrozen : Error → Bool
  | frozen _ => true
  | _ => false

/-- The label of a labelled failure. -/
def field? : Error → Option String
  | inField field _ => some field
  | _ => none

/-- The failure under all labels. -/
def root : Error → Error
  | inField _ source => source.root
  | e => e

/-- Labels a failure with the place where it happened. A failure that has a label keeps it; those of
frozen values and of the depth limit get none. -/
def annotate (field : String) : Error → Error
  | e@(inField _ _) => e
  | e@(frozen _) => e
  | e@(depthLimit _) => e
  | e => inField field e

/-- The innermost label stays. -/
theorem annotate_annotate (e : Error) (inner outer : String) :
    (e.annotate inner).annotate outer = e.annotate inner := by
  cases e <;> rfl

/-- A label does not hide the failure. -/
theorem root_annotate (e : Error) (field : String) : (e.annotate field).root = e.root := by
  cases e <;> rfl

/-- A failure as one of reading an element. -/
def asReading : Error → Error
  | e@(reading _) => e
  | e => reading e.message

/-- A failure as one of writing an element; that of a frozen value stays what it is. -/
def asWriting (reason : WriteReason) : Error → Error
  | e@(frozen _) => e
  | e@(writing _ _) => e
  | e => writing reason e.message

/-- The reason under which a write that failed this way is reported. -/
def writeReason : Error → WriteReason
  | indexOutOfRange _ _ => .indexOutOfRange
  | _ => .inherentType

end Error

end TypedJson
