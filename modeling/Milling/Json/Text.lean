import Milling.Json.Fault

/-!
# JSON texts

A text stands between quotes. Quotes, backslashes and control characters inside it
are written by escapes; everything else may stand for itself or be written by its
UTF-16 code units.
-/

namespace Milling.Json

/-- A character as it stands in a written text. -/
def escapeChar (c : Char) : List Char :=
  match c with
  | '"' => ['\\', '"']
  | '\\' => ['\\', '\\']
  | '\x08' => ['\\', 'b']
  | '\x0c' => ['\\', 'f']
  | '\n' => ['\\', 'n']
  | '\r' => ['\\', 'r']
  | '\t' => ['\\', 't']
  | c =>
    if c.val < 0x20 then
      ['\\', 'u', '0', '0', (c.toNat / 16).digitChar, (c.toNat % 16).digitChar]
    else [c]

/-- Writes a text. -/
def writeText (text : String) : List Char :=
  '"' :: (text.toList.flatMap escapeChar ++ ['"'])

/-- The value of a digit in base sixteen, of either case. -/
def hexDigit? (c : Char) : Option Nat :=
  if c.isDigit then some (c.toNat - '0'.toNat)
  else if 'a' ≤ c ∧ c ≤ 'f' then some (c.toNat - 'a'.toNat + 10)
  else if 'A' ≤ c ∧ c ≤ 'F' then some (c.toNat - 'A'.toNat + 10)
  else none

/-- The number that four digits in base sixteen stand for. -/
def hexNumber? (a b c d : Char) : Option Nat := do
  return (((← hexDigit? a) * 16 + (← hexDigit? b)) * 16 + (← hexDigit? c)) * 16 + (← hexDigit? d)

/-- How many bytes a list of characters takes. -/
def byteSize (chars : List Char) : Nat := chars.foldl (fun size c => size + c.utf8Size) 0

/-- Reads a code unit. A text that has less than four bytes left has stopped too early. -/
def readUnit (s : List Char) : Except Fault (Nat × List Char) :=
  match s with
  | a :: b :: c :: d :: rest =>
    match hexNumber? a b c d with
    | some n => .ok (n, rest)
    | none => .error (.breach .badEscape)
  | short => .error (if byteSize short < 4 then .stopped .text else .breach .badEscape)

/-- The second half of a pair, behind the first half `lead`. -/
def readPair (lead : Nat) (s : List Char) : Except Fault (Char × List Char) := do
  match s with
  | [] => .error (.stopped .text)
  | ['\\'] => .error (.stopped .text)
  | '\\' :: 'u' :: rest =>
    let (trail, rest) ← readUnit rest
    if 0xDC00 ≤ trail ∧ trail ≤ 0xDFFF then
      .ok (Char.ofNat ((lead - 0xD800) * 0x400 + (trail - 0xDC00) + 0x10000), rest)
    else .error (.breach .loneSurrogate)
  | _ => .error (.breach .halfPair)

/-- Reads what follows a backslash. -/
def readEscape (s : List Char) : Except Fault (Char × List Char) := do
  match s with
  | [] => .error (.stopped .text)
  | '"' :: rest => .ok ('"', rest)
  | '\\' :: rest => .ok ('\\', rest)
  | '/' :: rest => .ok ('/', rest)
  | 'b' :: rest => .ok ('\x08', rest)
  | 'f' :: rest => .ok ('\x0c', rest)
  | 'n' :: rest => .ok ('\n', rest)
  | 'r' :: rest => .ok ('\r', rest)
  | 't' :: rest => .ok ('\t', rest)
  | 'u' :: rest =>
    let (unit, rest) ← readUnit rest
    if 0xDC00 ≤ unit ∧ unit ≤ 0xDFFF then .error (.breach .loneSurrogate)
    else if 0xD800 ≤ unit ∧ unit ≤ 0xDBFF then readPair unit rest
    else .ok (Char.ofNat unit, rest)
  | _ => .error (.breach .badEscape)

/-- Reads characters up to the closing quote; `read` holds those before, last one first. -/
def readChars : (fuel : Nat) → (read : List Char) → List Char → Except Fault (String × List Char)
  | fuel + 1, read, c :: rest =>
    if c = '"' then .ok (String.ofList read.reverse, rest)
    else if c = '\\' then
      match readEscape rest with
      | .ok (c, rest) => readChars fuel (c :: read) rest
      | .error fault => .error fault
    else if c.val < 0x20 then .error (.breach .bareControl)
    else readChars fuel (c :: read) rest
  | _, _, _ => .error (.stopped .text)

/-- Reads a text whose opening quote has been read. -/
def readText (s : List Char) : Except Fault (String × List Char) := readChars (s.length + 1) [] s

/-- Goes past what follows a backslash, without asking which character it stands for. -/
def skipEscape (s : List Char) : Except Fault (List Char) := do
  match s with
  | [] => .error (.stopped .text)
  | 'u' :: rest => return (← readUnit rest).2
  | c :: rest =>
    if c ∈ ['"', '\\', '/', 'b', 'f', 'n', 'r', 't'] then .ok rest
    else .error (.breach .badEscape)

/-- Goes past the characters up to the closing quote. -/
def skipChars : (fuel : Nat) → List Char → Except Fault (List Char)
  | fuel + 1, c :: rest =>
    if c = '"' then .ok rest
    else if c = '\\' then
      match skipEscape rest with
      | .ok rest => skipChars fuel rest
      | .error fault => .error fault
    else if c.val < 0x20 then .error (.breach .bareControl)
    else skipChars fuel rest
  | _, _ => .error (.stopped .text)

/-- Goes past a text whose opening quote has been read. -/
def skipText (s : List Char) : Except Fault (List Char) := skipChars (s.length + 1) s

end Milling.Json
