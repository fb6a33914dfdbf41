import Milling.Number.Text
import Milling.Text.Quoted

/-!
# Documents that do not fit

A document can be well formed and still not be what was asked for: a text stands
where a number is expected, a field is missing or comes twice. These faults are
the same whatever the document is written in.
-/

namespace Milling

/-- What stands in a document where something else was expected. -/
inductive Found where
  | null
  | boolean (b : Bool)
  | integer (i : Int)
  | number (x : Float)
  | text (s : String)
  | sequence
  | map
  /-- The bare name of an alternative that needs a value. -/
  | bareVariant
deriving DecidableEq

/-- Why a well-formed document does not fit. -/
inductive Mismatch where
  | wrongType (found : Found) (expected : String)
  /-- A record written as a list has too few elements. -/
  | wrongLength (length : Nat) (expected : String)
  | missingField (name : String)
  | duplicateField (name : String)
  | unknownVariant (name : String) (known : List String)
deriving DecidableEq

/-- The word for a value, with the value itself if it is a single one. -/
def Found.describe (number : Float → String) : Found → String
  | .null => "null"
  | .boolean b => "boolean `" ++ (if b then "true" else "false") ++ "`"
  | .integer i => "integer `" ++ toString i ++ "`"
  | .number x => "floating point `" ++ number x ++ "`"
  | .text s => "string " ++ Text.quoted s
  | .sequence => "sequence"
  | .map => "map"
  | .bareVariant => "unit variant"

/-- A name between backquotes. -/
def Mismatch.named (name : String) : String := "`" ++ name ++ "`"

/-- The choice that a reader of the message has. -/
def Mismatch.choice : List String → String
  | [] => "there are no variants"
  | [a] => "expected " ++ named a
  | [a, b] => "expected " ++ named a ++ " or " ++ named b
  | many => "expected one of " ++ ", ".intercalate (many.map named)

/-- The mismatch in words; numbers are written as the document's format writes them. -/
def Mismatch.message (number : Float → String) : Mismatch → String
  | .wrongType found expected =>
    "invalid type: " ++ found.describe number ++ ", expected " ++ expected
  | .wrongLength length expected =>
    "invalid length " ++ toString length ++ ", expected " ++ expected
  | .missingField name => "missing field " ++ named name
  | .duplicateField name => "duplicate field " ++ named name
  | .unknownVariant name known => "unknown variant " ++ named name ++ ", " ++ choice known

end Milling
