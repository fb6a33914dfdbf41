import Milling.Text.Quoted

/-!
# TOML texts

TOML has four ways to write a text: between quotes or apostrophes, one of them or
three. Between apostrophes nothing is escaped; between three of either, line feeds
stand for themselves. The writer takes the first way that needs no escapes, and
falls back on escapes when there is none.
-/

namespace Milling.Toml

/-- How a text is written. -/
inductive Style where
  | quotes
  | apostrophes
  | quoteLines
  | apostropheLines
deriving DecidableEq, Repr

/-- Whether a style has three marks on each side and holds line feeds. -/
def Style.holdsLines : Style → Bool
  | .quotes | .apostrophes => false
  | .quoteLines | .apostropheLines => true

/-- Whether a style has escapes. -/
def Style.hasEscapes : Style → Bool
  | .quotes | .quoteLines => true
  | .apostrophes | .apostropheLines => false

/-- The marks on either side of a text. -/
def Style.mark : Style → List Char
  | .quotes => ['"']
  | .apostrophes => ['\'']
  | .quoteLines => ['"', '"', '"']
  | .apostropheLines => ['\'', '\'', '\'']

/-! ## Writing -/

/-- The length of the longest run of a character, where `run` of it come before. -/
def longestRun (c : Char) (run : Nat) : List Char → Nat
  | [] => run
  | d :: rest =>
    if d = c then longestRun c (run + 1) rest else max run (longestRun c 0 rest)

/-- Whether a character can only be written by an escape. -/
def needsEscape (c : Char) : Bool :=
  (c.val ≤ 0x1F && c ≠ '\t' && c ≠ '\n') || c.val == 0x7F

/-- The style that a text is written in. -/
def Style.of (text : List Char) : Style :=
  let escapes := text.any needsEscape
  let backslash := text.contains '\\'
  let lines := text.contains '\n'
  let quotes := longestRun '"' 0 text
  let apostrophes := longestRun '\'' 0 text
  if !escapes && !backslash && quotes = 0 && !lines then .quotes
  else if !escapes && apostrophes = 0 && !lines then .apostrophes
  else if !escapes && !backslash && quotes ≤ 2 then .quoteLines
  else if !escapes && apostrophes ≤ 2 then .apostropheLines
  else if lines then .quoteLines
  else .quotes

/-- A number in base sixteen, four digits wide, with capitals. -/
def wideHex (n : Nat) : List Char :=
  let digits := (Nat.toDigits 16 n).map Char.toUpper
  List.replicate (4 - digits.length) '0' ++ digits

/-- A character other than a quote or a line feed, as it stands between quotes. -/
def escapeChar (c : Char) : List Char :=
  match c with
  | '\x08' => ['\\', 'b']
  | '\t' => ['\\', 't']
  | '\x0c' => ['\\', 'f']
  | '\r' => ['\\', 'r']
  | '\\' => ['\\', '\\']
  | c => if needsEscape c then '\\' :: 'u' :: wideHex c.toNat else [c]

/--
The characters of a text between quotes. A run of quotes may be as long as it
cannot be taken for the end: two between three quotes, none between one.
-/
def escape (lines : Bool) (run : Nat) : List Char → List Char
  | [] => []
  | c :: rest =>
    if c = '"' then
      if run < (if lines then 2 else 0) then '"' :: escape lines (run + 1) rest
      else '\\' :: '"' :: escape lines 0 rest
    else if c = '\n' then
      (if lines then ['\n'] else ['\\', 'n']) ++ escape lines 0 rest
    else escapeChar c ++ escape lines 0 rest

/-- Writes a text. One that has line feeds begins on a line of its own. -/
def writeText (text : String) : List Char :=
  let chars := text.toList
  let style := Style.of chars
  let start := if style.holdsLines && chars.contains '\n' then ['\n'] else []
  let body := if style.hasEscapes then escape style.holdsLines 0 chars else chars
  style.mark ++ (start ++ (body ++ style.mark))

/-! ## Reading -/

/-- Whether a character may stand for itself in a comment and in every text. -/
def isShown (c : Char) : Bool :=
  c = '\t' || (0x20 ≤ c.val && c.val ≤ 0x7E) || 0x80 ≤ c.val

/-- Goes past the end of a line. -/
def newline? : List Char → Option (List Char)
  | '\n' :: rest => some rest
  | '\r' :: '\n' :: rest => some rest
  | _ => none

/-- The value of a digit in base sixteen, of either case. -/
def hexDigit? (c : Char) : Option Nat :=
  if c.isDigit then some (c.toNat - '0'.toNat)
  else if 'a' ≤ c ∧ c ≤ 'f' then some (c.toNat - 'a'.toNat + 10)
  else if 'A' ≤ c ∧ c ≤ 'F' then some (c.toNat - 'A'.toNat + 10)
  else none

/-- Reads a number of exactly `count` digits in base sixteen. -/
def hexNumber? : (count : Nat) → (read : Nat) → List Char → Option (Nat × List Char)
  | 0, read, rest => some (read, rest)
  | count + 1, read, c :: rest => do hexNumber? count (read * 16 + (← hexDigit? c)) rest
  | _ + 1, _, [] => none

/-- The character with a given code, if there is one. -/
def character? (code : Nat) : Option Char :=
  if code < 0xD800 ∨ (0xDFFF < code ∧ code < 0x110000) then some (Char.ofNat code) else none

/-- Reads what follows a backslash, other than the end of a line. -/
def readEscape? : List Char → Option (Char × List Char)
  | 'b' :: rest => some ('\x08', rest)
  | 't' :: rest => some ('\t', rest)
  | 'n' :: rest => some ('\n', rest)
  | 'f' :: rest => some ('\x0c', rest)
  | 'r' :: rest => some ('\r', rest)
  | '"' :: rest => some ('"', rest)
  | '\\' :: rest => some ('\\', rest)
  | 'u' :: rest => do
    let (code, rest) ← hexNumber? 4 0 rest
    return (← character? code, rest)
  | 'U' :: rest => do
    let (code, rest) ← hexNumber? 8 0 rest
    return (← character? code, rest)
  | _ => none

/-- Whether a character is a blank within a line. -/
def isSpace (c : Char) : Bool := c = ' ' || c = '\t'

/-- Goes past blanks and line ends. -/
def skipLines : (fuel : Nat) → List Char → List Char
  | 0, s => s
  | fuel + 1, s =>
    let s := s.dropWhile isSpace
    match newline? s with
    | some rest => skipLines fuel rest
    | none => s

/--
Reads what follows a backslash at the end of a line: blanks, the line end, and
everything blank after it, which is not part of the text.
-/
def joinedLine? (s : List Char) : Option (List Char) :=
  (newline? (s.dropWhile isSpace)).map fun rest => skipLines (rest.length + 1) rest

/-- Reads a text between quotes on one line; `read` holds what is there, last first. -/
def readQuotes : (fuel : Nat) → (read : List Char) → List Char → Option (String × List Char)
  | fuel + 1, read, c :: rest =>
    if c = '"' then some (String.ofList read.reverse, rest)
    else if c = '\\' then
      match readEscape? rest with
      | some (c, rest) => readQuotes fuel (c :: read) rest
      | none => none
    else if isShown c then readQuotes fuel (c :: read) rest
    else none
  | _, _, _ => none

/-- Reads a text between apostrophes on one line. -/
def readApostrophes (s : List Char) : Option (String × List Char) :=
  let body := s.takeWhile fun c => c ≠ '\'' && isShown c
  match s.dropWhile fun c => c ≠ '\'' && isShown c with
  | '\'' :: rest => some (String.ofList body, rest)
  | _ => none

/--
Takes a run of marks inside a text with three marks on each side. Fewer than three
belong to the text. Three end it, and of one or two more the text keeps those.
-/
def closing? (mark : Char) (s : List Char) : Option (Nat × List Char) :=
  let run := (s.takeWhile (· = mark)).length
  if run < 3 then none
  else
    let kept := min (run - 3) 2
    some (kept, s.drop (kept + 3))

/-- Reads a text between three quotes. -/
def readQuoteLines : (fuel : Nat) → (read : List Char) → List Char → Option (String × List Char)
  | fuel + 1, read, c :: rest =>
    if c = '"' then
      match closing? '"' (c :: rest) with
      | some (kept, rest) =>
        some (String.ofList (List.replicate kept '"' ++ read).reverse, rest)
      | none => readQuoteLines fuel (c :: read) rest
    else if c = '\\' then
      match joinedLine? rest with
      | some rest => readQuoteLines fuel read rest
      | none =>
        match readEscape? rest with
        | some (c, rest) => readQuoteLines fuel (c :: read) rest
        | none => none
    else
      match newline? (c :: rest) with
      | some rest => readQuoteLines fuel ('\n' :: read) rest
      | none => if isShown c then readQuoteLines fuel (c :: read) rest else none
  | _, _, _ => none

/-- Reads a text between three apostrophes. -/
def readApostropheLines :
    (fuel : Nat) → (read : List Char) → List Char → Option (String × List Char)
  | fuel + 1, read, c :: rest =>
    if c = '\'' then
      match closing? '\'' (c :: rest) with
      | some (kept, rest) =>
        some (String.ofList (List.replicate kept '\'' ++ read).reverse, rest)
      | none => readApostropheLines fuel (c :: read) rest
    else
      match newline? (c :: rest) with
      | some rest => readApostropheLines fuel ('\n' :: read) rest
      | none => if isShown c then readApostropheLines fuel (c :: read) rest else none
  | _, _, _ => none

/-- A line end right behind the opening marks is not part of the text. -/
def skipFirstNewline (s : List Char) : List Char := (newline? s).getD s

/-- Reads a text in any of the four styles. -/
def readText? : List Char → Option (String × List Char)
  | '"' :: '"' :: '"' :: rest =>
    let rest := skipFirstNewline rest
    readQuoteLines (rest.length + 1) [] rest
  | '\'' :: '\'' :: '\'' :: rest =>
    let rest := skipFirstNewline rest
    readApostropheLines (rest.length + 1) [] rest
  | '"' :: rest => readQuotes (rest.length + 1) [] rest
  | '\'' :: rest => readApostrophes rest
  | _ => none

end Milling.Toml
