import Milling.Json.Number
import Milling.Json.Value

/-!
# Reading JSON from the left

A reader takes the text that is left and gives a value with the text behind it.
Readers know what they want and read it directly, so a document that does not fit
is refused where it stops fitting, even if it is malformed further on. Nesting is
limited, and a reader is told how many levels are left.

The loops over lists and objects are bounded by the length of the text that is
left: every turn takes at least one character.
-/

namespace Milling.Json

/-- Reads a value off the front of a text, with a number of levels of nesting left. -/
def Reader (α : Type) : Type := (levels : Nat) → List Char → Except Fault (α × List Char)

namespace Reader

instance : Monad Reader where
  pure a := fun _ s => .ok (a, s)
  bind r f := fun levels s =>
    match r levels s with
    | .ok (a, rest) => f a levels rest
    | .error fault => .error fault

variable {α σ : Type}

/-- Refuses whatever stands there. -/
def fail (fault : Fault) : Reader α := fun _ _ => .error fault

/-- The characters that may stand between the parts of a document. -/
def isSpace (c : Char) : Bool := c = ' ' || c = '\n' || c = '\t' || c = '\r'

/-- The text from the next character that is not a space. -/
def skipSpace (s : List Char) : List Char := s.dropWhile isSpace

/-- Reads the rest of a word whose first letter has been read. -/
def word : List Char → List Char → Except Fault (List Char)
  | [], s => .ok s
  | _ :: _, [] => .error (.stopped .value)
  | w :: ws, c :: s => if c = w then word ws s else .error (.breach .noWord)

/-- Reads one of the words that stand for a value. -/
def wordValue (found : Found) (rest : List Char) (s : List Char) :
    Except Fault (Found × List Char) := do
  return (found, ← word rest s)

/--
Reads what stands there as far as a message needs it: single values in full, and
of lists and objects only how they begin.
-/
def glance (s : List Char) : Except Fault (Found × List Char) :=
  match s with
  | 'n' :: rest => wordValue .null ['u', 'l', 'l'] rest
  | 't' :: rest => wordValue (.boolean true) ['r', 'u', 'e'] rest
  | 'f' :: rest => wordValue (.boolean false) ['a', 'l', 's', 'e'] rest
  | '"' :: rest => do
    let (text, rest) ← readText rest
    .ok (.text text, rest)
  | '-' :: rest => do
    let (n, rest) ← Numeral.read true rest
    .ok (n.found, rest)
  | '[' :: rest => .ok (.sequence, rest)
  | '\x7b' :: rest => .ok (.map, rest)
  | c :: rest =>
    if c.isDigit then do
      let (n, rest) ← Numeral.read false (c :: rest)
      .ok (n.found, rest)
    else .error (.breach .noValue)
  | [] => .error (.breach .noValue)

/-- Refuses a value of the wrong type. -/
def refuseType (expected : String) : Reader α := fun _ s => do
  let (found, _) ← glance s
  .error (.mismatch (.wrongType found expected))

/-- Goes to the next value, which has to be there. -/
def toValue (r : Reader α) : Reader α := fun levels s =>
  match skipSpace s with
  | [] => .error (.stopped .value)
  | s => r levels s

/-- Reads something one level deeper. -/
def nested (r : Reader α) : Reader α := fun levels s =>
  if levels ≤ 1 then .error (.breach .tooDeep) else r (levels - 1) s

/-- Reads any number as a double. -/
def number : Reader Float := toValue fun levels s =>
  match s with
  | '-' :: rest => do
    let (n, rest) ← Numeral.read true rest
    .ok (n.toFloat, rest)
  | c :: _ =>
    if c.isDigit then do
      let (n, rest) ← Numeral.read false s
      .ok (n.toFloat, rest)
    else refuseType "f64" levels s
  | [] => refuseType "f64" levels s

/-- Reads a text; messages call what is wanted by `expected`. -/
def textAs (expected : String) : Reader String := toValue fun levels s =>
  match s with
  | '"' :: rest => readText rest
  | _ => refuseType expected levels s

/-- Reads a text. -/
def text : Reader String := textAs "a string"

/-- Reads `null`. -/
def unitAs (expected : String) : Reader Unit := toValue fun levels s =>
  match s with
  | 'n' :: rest => do .ok ((), ← word ['u', 'l', 'l'] rest)
  | _ => refuseType expected levels s

/-- Reads `null` as nothing, and anything else by `r`. -/
def optional (r : Reader α) : Reader (Option α) := fun levels s =>
  match skipSpace s with
  | 'n' :: rest => do .ok (none, ← word ['u', 'l', 'l'] rest)
  | s => do
    let (a, rest) ← r levels s
    .ok (some a, rest)

/-! ## Lists -/

/-- The text from the next element of a list, or nothing where the list ends. -/
def nextElement? (first : Bool) (s : List Char) : Except Fault (Option (List Char)) :=
  match skipSpace s with
  | [] => .error (.stopped .list)
  | ']' :: _ => .ok none
  | c :: rest =>
    if first then .ok (some (c :: rest))
    else if c = ',' then
      match skipSpace rest with
      | [] => .error (.stopped .value)
      | ']' :: _ => .error (.breach .trailingComma)
      | s => .ok (some s)
    else .error (.breach .noListSeparator)

/-- Goes past the end of a list of which no more is wanted. -/
def endList (s : List Char) : Except Fault (List Char) :=
  match skipSpace s with
  | [] => .error (.stopped .list)
  | ']' :: rest => .ok rest
  | ',' :: rest =>
    match skipSpace rest with
    | ']' :: _ => .error (.breach .trailingComma)
    | _ => .error (.breach .trailingCharacters)
  | _ => .error (.breach .trailingCharacters)

/-- Reads the elements of a list up to its end; `read` holds those before, last one first. -/
def elements (r : Reader α) : (fuel : Nat) → (first : Bool) → (read : List α) → Reader (List α)
  | 0, _, _ => fun _ _ => .error (.stopped .list)
  | fuel + 1, first, read => fun levels s =>
    match nextElement? first s with
    | .error fault => .error fault
    | .ok none => do .ok (read.reverse, ← endList s)
    | .ok (some s) =>
      match r levels s with
      | .error fault => .error fault
      | .ok (a, rest) => elements r fuel false (a :: read) levels rest

/-- Reads a list of what `r` reads. -/
def list (r : Reader α) : Reader (List α) := toValue fun levels s =>
  match s with
  | '[' :: rest => nested (elements r (rest.length + 1) true []) levels rest
  | _ => refuseType "a sequence" levels s

/-! ## Objects -/

/-- The text behind the opening quote of the next key, or nothing where the object ends. -/
def nextKey? (first : Bool) (s : List Char) : Except Fault (Option (List Char)) :=
  match skipSpace s with
  | [] => .error (.stopped .object)
  | '\x7d' :: _ => .ok none
  | c :: rest =>
    if first then
      if c = '"' then .ok (some rest) else .error (.breach .keyNotText)
    else if c = ',' then
      match skipSpace rest with
      | '"' :: rest => .ok (some rest)
      | '\x7d' :: _ => .error (.breach .trailingComma)
      | _ :: _ => .error (.breach .keyNotText)
      | [] => .error (.stopped .value)
    else .error (.breach .noObjectSeparator)

/-- Goes past the colon between a key and its value. -/
def colon : Reader Unit := fun _ s =>
  match skipSpace s with
  | [] => .error (.stopped .object)
  | ':' :: rest => .ok ((), rest)
  | _ => .error (.breach .noColon)

/-- Goes past the end of an object. -/
def endObject (s : List Char) : Except Fault (List Char) :=
  match skipSpace s with
  | [] => .error (.stopped .object)
  | '\x7d' :: rest => .ok rest
  | ',' :: _ => .error (.breach .trailingComma)
  | _ => .error (.breach .trailingCharacters)

/-- Reads the next key of an object, or nothing where the object ends. -/
def key? (first : Bool) : Reader (Option String) := fun _ s =>
  match nextKey? first s with
  | .error fault => .error fault
  | .ok none => .ok (none, s)
  | .ok (some s) => do
    let (key, rest) ← readText s
    .ok (some key, rest)

/--
Reads the members of an object up to its end. `step` is given each key and reads
the colon and the value itself, because some keys are refused on sight.
-/
def members (step : σ → String → Reader σ) : (fuel : Nat) → (first : Bool) → σ → Reader σ
  | 0, _, _ => fun _ _ => .error (.stopped .object)
  | fuel + 1, first, draft => fun levels s =>
    match key? first levels s with
    | .error fault => .error fault
    | .ok (none, rest) => .ok (draft, rest)
    | .ok (some key, rest) =>
      match step draft key levels rest with
      | .error fault => .error fault
      | .ok (draft, rest) => members step fuel false draft levels rest

/-! ## What nobody asked for -/

/-- Goes past digits of which there has to be at least one. -/
def skipDigits (s : List Char) : Except Fault (List Char) :=
  if (s.takeWhile Char.isDigit).isEmpty then .error (.breach .badNumber)
  else .ok (s.dropWhile Char.isDigit)

/-- Goes past a power of ten behind its letter. -/
def skipExponent (s : List Char) : Except Fault (List Char) :=
  match s with
  | '+' :: rest | '-' :: rest => skipDigits rest
  | rest => skipDigits rest

/-- Goes past what may follow the digits before a point. -/
def skipNumberTail (s : List Char) : Except Fault (List Char) :=
  match s with
  | '.' :: rest => do
    match ← skipDigits rest with
    | 'e' :: rest | 'E' :: rest => skipExponent rest
    | rest => .ok rest
  | 'e' :: rest | 'E' :: rest => skipExponent rest
  | rest => .ok rest

/-- Goes past a number without a sign. -/
def skipNumber (s : List Char) : Except Fault (List Char) :=
  match s with
  | '0' :: rest =>
    if (rest.head?.map Char.isDigit).getD false then .error (.breach .badNumber)
    else skipNumberTail rest
  | rest => do skipNumberTail (← skipDigits rest)

mutual

/-- Goes past any value. Only its grammar counts: numbers may be too large and nesting is free. -/
def skipValue : (fuel : Nat) → List Char → Except Fault (List Char)
  | 0, _ => .error (.stopped .value)
  | fuel + 1, s =>
    match skipSpace s with
    | [] => .error (.stopped .value)
    | 'n' :: rest => word ['u', 'l', 'l'] rest
    | 't' :: rest => word ['r', 'u', 'e'] rest
    | 'f' :: rest => word ['a', 'l', 's', 'e'] rest
    | '"' :: rest => skipText rest
    | '-' :: rest => skipNumber rest
    | '[' :: rest =>
      match skipSpace rest with
      | [] => .error (.stopped .list)
      | ']' :: rest => .ok rest
      | rest => skipItems fuel rest
    | '\x7b' :: rest =>
      match skipSpace rest with
      | [] => .error (.stopped .object)
      | '\x7d' :: rest => .ok rest
      | rest => skipMembers fuel rest
    | c :: rest => if c.isDigit then skipNumber (c :: rest) else .error (.breach .noValue)

/-- Goes past the items of a list from one of them on. -/
def skipItems : (fuel : Nat) → List Char → Except Fault (List Char)
  | 0, _ => .error (.stopped .list)
  | fuel + 1, s =>
    match skipValue fuel s with
    | .error fault => .error fault
    | .ok rest =>
      match skipSpace rest with
      | [] => .error (.stopped .list)
      | ',' :: rest => skipItems fuel rest
      | ']' :: rest => .ok rest
      | _ => .error (.breach .noListSeparator)

/-- Goes past the members of an object from one of them on. -/
def skipMembers : (fuel : Nat) → List Char → Except Fault (List Char)
  | 0, _ => .error (.stopped .object)
  | fuel + 1, s =>
    match skipSpace s with
    | [] => .error (.stopped .object)
    | '"' :: rest =>
      match skipText rest with
      | .error fault => .error fault
      | .ok rest =>
        match skipSpace rest with
        | [] => .error (.stopped .object)
        | ':' :: rest =>
          match skipValue fuel rest with
          | .error fault => .error fault
          | .ok rest =>
            match skipSpace rest with
            | [] => .error (.stopped .object)
            | ',' :: rest => skipMembers fuel rest
            | '\x7d' :: rest => .ok rest
            | _ => .error (.breach .noObjectSeparator)
        | _ => .error (.breach .noColon)
    | _ => .error (.breach .keyNotText)

end

/-- Goes past a value that nobody asked for. -/
def ignore : Reader Unit := fun _ s => do .ok ((), ← skipValue (2 * s.length + 2) s)

/-! ## Values of any kind -/

mutual

/-- Reads any value. -/
def valueWithin : (fuel : Nat) → Reader Value
  | 0 => fun _ _ => .error (.stopped .value)
  | fuel + 1 => toValue fun levels s =>
    match s with
    | '[' :: rest => nested (itemsWithin fuel true []) levels rest
    | '\x7b' :: rest => nested (membersWithin fuel true []) levels rest
    | s =>
      match glance s with
      | .error fault => .error fault
      | .ok (found, rest) =>
        match found with
        | .boolean b => .ok (.boolean b, rest)
        | .integer i => .ok (.integer i, rest)
        | .number x => .ok (.number x, rest)
        | .text t => .ok (.text t, rest)
        | _ => .ok (.null, rest)

/-- Reads the items of a list up to its end. -/
def itemsWithin : (fuel : Nat) → (first : Bool) → List Value → Reader Value
  | 0, _, _ => fun _ _ => .error (.stopped .list)
  | fuel + 1, first, read => fun levels s =>
    match nextElement? first s with
    | .error fault => .error fault
    | .ok none => do .ok (.list read.reverse, ← endList s)
    | .ok (some s) =>
      match valueWithin fuel levels s with
      | .error fault => .error fault
      | .ok (v, rest) => itemsWithin fuel false (v :: read) levels rest

/-- Reads the members of an object up to its end. -/
def membersWithin : (fuel : Nat) → (first : Bool) → List (String × Value) → Reader Value
  | 0, _, _ => fun _ _ => .error (.stopped .object)
  | fuel + 1, first, read => fun levels s =>
    match key? first levels s with
    | .error fault => .error fault
    | .ok (none, rest) => do .ok (.object read.reverse, ← endObject rest)
    | .ok (some key, rest) =>
      match colon levels rest with
      | .error fault => .error fault
      | .ok (_, rest) =>
        match valueWithin fuel levels rest with
        | .error fault => .error fault
        | .ok (v, rest) => membersWithin fuel false ((key, v) :: read) levels rest

end

/-- Reads any value. -/
def value : Reader Value := fun levels s => valueWithin (2 * s.length + 2) levels s

/-! ## Alternatives -/

/-- Accepts the name of a known alternative. -/
def known (names : List String) (name : String) : Reader Unit :=
  if names.contains name then pure ()
  else fail (.mismatch (.unknownVariant name names))

/--
Reads one of several alternatives: the bare name of one, or an object whose only
key is the name and whose value belongs to it.
-/
def variant (names : List String) (bare : String → Reader α) (withValue : String → Reader α) :
    Reader α := toValue fun levels s =>
  match s with
  | '"' :: rest => do
    let (name, rest) ← readText rest
    let (_, rest) ← known names name levels rest
    bare name levels rest
  | '\x7b' :: rest => do
    let inside : Reader α := do
      let name ← textAs "variant identifier"
      known names name
      colon
      withValue name
    let (a, rest) ← nested inside levels rest
    match skipSpace rest with
    | [] => .error (.stopped .object)
    | '\x7d' :: rest => .ok (a, rest)
    | _ => .error (.breach .noValue)
  | _ => .error (.breach .noValue)

/-! ## Whole documents -/

/-- How many levels of nesting a document may have, one more than it can use. -/
def levelLimit : Nat := 128

/-- Reads a document of which nothing may be left. -/
def run (r : Reader α) (document : String) : Except Fault α := do
  let (a, rest) ← r levelLimit document.toList
  match skipSpace rest with
  | [] => .ok a
  | _ => .error (.breach .trailingCharacters)

end Reader

end Milling.Json
