import Milling.Json.Text

/-!
# JSON values and how they are written

Values are written in two ways: on one line without blanks, for messages between
programs, and over several lines with two blanks for each level, for files that
people read.
-/

namespace Milling.Json

/-- A JSON value. The members of an object keep their order, and keys may repeat. -/
inductive Value where
  | null
  | boolean (b : Bool)
  | integer (i : Int)
  | number (x : Float)
  | text (s : String)
  | list (items : List Value)
  | object (members : List (String × Value))

namespace Value

/-- The value as a message about its type shows it. -/
def found : Value → Found
  | .null => .null
  | .boolean b => .boolean b
  | .integer i => .integer i
  | .number x => .number x
  | .text s => .text s
  | .list _ => .sequence
  | .object _ => .map

/-- A number as JSON can hold it. What is not finite has no JSON form and is written as `null`. -/
def writeNumber (x : Float) : List Char :=
  if x.isFinite then (Double.compact x).toList else ['n', 'u', 'l', 'l']

/-- Writes a value that is neither a list nor an object. -/
def writeAtom : Value → List Char
  | .null => ['n', 'u', 'l', 'l']
  | .boolean true => ['t', 'r', 'u', 'e']
  | .boolean false => ['f', 'a', 'l', 's', 'e']
  | .integer i => (toString i).toList
  | .number x => writeNumber x
  | .text s => writeText s
  | .list _ => ['[', ']']
  | .object _ => ['\x7b', '\x7d']

mutual

/-- Writes a value on one line. -/
def compact : Value → List Char
  | .list [] => ['[', ']']
  | .list (item :: items) => '[' :: (compact item ++ (compactItems items ++ [']']))
  | .object [] => ['\x7b', '\x7d']
  | .object ((key, value) :: members) =>
    '\x7b' :: (writeText key ++ ':' :: (compact value ++ (compactMembers members ++ ['\x7d'])))
  | atom => atom.writeAtom

/-- Writes the items after the first. -/
def compactItems : List Value → List Char
  | [] => []
  | item :: items => ',' :: (compact item ++ compactItems items)

/-- Writes the members after the first. -/
def compactMembers : List (String × Value) → List Char
  | [] => []
  | (key, value) :: members =>
    ',' :: (writeText key ++ ':' :: (compact value ++ compactMembers members))

end

/-- A new line at some level of nesting. -/
def newLine (level : Nat) : List Char := '\n' :: List.replicate (2 * level) ' '

mutual

/-- Writes a value over several lines, from some level of nesting on. -/
def pretty (level : Nat) : Value → List Char
  | .list [] => ['[', ']']
  | .list (item :: items) =>
    '[' :: (newLine (level + 1) ++ (pretty (level + 1) item ++
      (prettyItems (level + 1) items ++ (newLine level ++ [']']))))
  | .object [] => ['\x7b', '\x7d']
  | .object ((key, value) :: members) =>
    '\x7b' :: (newLine (level + 1) ++ (writeText key ++ ':' :: ' ' ::
      (pretty (level + 1) value ++ (prettyMembers (level + 1) members ++
        (newLine level ++ ['\x7d'])))))
  | atom => atom.writeAtom

/-- Writes the items after the first, each on a line of its own. -/
def prettyItems (level : Nat) : List Value → List Char
  | [] => []
  | item :: items => ',' :: (newLine level ++ (pretty level item ++ prettyItems level items))

/-- Writes the members after the first, each on a line of its own. -/
def prettyMembers (level : Nat) : List (String × Value) → List Char
  | [] => []
  | (key, value) :: members =>
    ',' :: (newLine level ++ (writeText key ++ ':' :: ' ' ::
      (pretty level value ++ prettyMembers level members)))

end

/-- The value on one line. -/
def toLine (v : Value) : String := String.ofList v.compact

/-- The value over several lines. -/
def toLines (v : Value) : String := String.ofList (v.pretty 0)

end Value

end Milling.Json
