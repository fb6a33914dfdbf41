import Milling.Toml.Value

/-!
# Reading TOML documents

A document is read line by line into sections: a header, or none at the start, and
the entries below it. The sections are then put into one table. What is not TOML is
refused without saying where or why.
-/

namespace Milling.Toml

/-- Goes past blanks within a line. -/
def skipSpace (s : List Char) : List Char := s.dropWhile isSpace

/-! ## Keys -/

/-- Whether a character may stand in a key without quotes. -/
def isBare (c : Char) : Bool := c.isAlphanum || c = '-' || c = '_'

/-- Reads one part of a key. -/
def readKeyPart? : List Char → Option (String × List Char)
  | '"' :: rest => readQuotes (rest.length + 1) [] rest
  | '\'' :: rest => readApostrophes rest
  | s =>
    let bare := s.takeWhile isBare
    if bare.isEmpty then none else some (String.ofList bare, s.dropWhile isBare)

/-- Reads the parts of a key between dots. -/
def readKeyParts? : (fuel : Nat) → List Char → Option (List String × List Char)
  | 0, _ => none
  | fuel + 1, s => do
    let (part, rest) ← readKeyPart? (skipSpace s)
    match skipSpace rest with
    | '.' :: rest =>
      let (parts, rest) ← readKeyParts? fuel rest
      return (part :: parts, rest)
    | rest => return ([part], rest)

/-- How many parts a key may have, and how deep values may be nested, one more than allowed. -/
def levelLimit : Nat := 80

/-- Reads a key: the parts before its last dot, and its last part. -/
def readKey? (s : List Char) : Option (List String × String × List Char) := do
  let (parts, rest) ← readKeyParts? (s.length + 1) s
  if levelLimit ≤ parts.length then none
  else return (parts.dropLast, ← parts.getLast?, rest)

/-! ## Values -/

/-- Goes past a comment, if there is one, up to the end of the line. -/
def skipComment : List Char → List Char
  | '#' :: rest => rest.dropWhile isShown
  | rest => rest

/-- Goes past blanks, line ends and comments. -/
def skipBlankLines : (fuel : Nat) → List Char → List Char
  | 0, s => s
  | fuel + 1, s =>
    let s := skipSpace s
    match newline? (skipComment s) with
    | some rest => skipBlankLines fuel rest
    | none => s

/-- Goes past blanks, line ends and comments. -/
def skipBlank (s : List Char) : List Char := skipBlankLines (s.length + 1) s

/-- Reads a value that is neither a list nor a table. -/
def readAtom? (s : List Char) : Option (Value × List Char) :=
  match s with
  | '"' :: _ | '\'' :: _ => (readText? s).map fun (text, rest) => (.text text, rest)
  | 't' :: 'r' :: 'u' :: 'e' :: rest => some (.boolean true, rest)
  | 'f' :: 'a' :: 'l' :: 's' :: 'e' :: rest => some (.boolean false, rest)
  | _ => (Literal.read? s).map fun (literal, rest) =>
    (match literal with
      | .integer i => .integer i
      | .number x => .number x
      | .moment => .moment, rest)

/-- The table that entries between braces make. -/
def inlineTable? (entries : List (List String × String × Value)) : Option Value := do
  return (Node.table .header (← Members.assignAll entries [])).toValue

mutual

/-- Reads a value, with a number of levels of nesting left. -/
def readValue? : (fuel : Nat) → (levels : Nat) → List Char → Option (Value × List Char)
  | 0, _, _ => none
  | fuel + 1, levels, s =>
    match s with
    | '[' :: rest => if levels ≤ 1 then none else readItems? fuel (levels - 1) [] (skipBlank rest)
    | '\x7b' :: rest =>
      if levels ≤ 1 then none
      else match skipSpace rest with
        | '\x7d' :: rest => some (.table [], rest)
        | rest => readEntries? fuel (levels - 1) [] rest
    | s => readAtom? s

/-- Reads the items of a list up to its end; `read` holds those before, last one first. -/
def readItems? :
    (fuel : Nat) → (levels : Nat) → (read : List Value) → List Char → Option (Value × List Char)
  | 0, _, _, _ => none
  | fuel + 1, levels, read, s =>
    match s with
    | ']' :: rest => some (.list read.reverse, rest)
    | s =>
      match readValue? fuel levels s with
      | none => none
      | some (v, rest) =>
        match skipBlank rest with
        | ',' :: rest => readItems? fuel levels (v :: read) (skipBlank rest)
        | ']' :: rest => some (.list (v :: read).reverse, rest)
        | _ => none

/-- Reads the entries of a table between braces. -/
def readEntries? : (fuel : Nat) → (levels : Nat) → (read : List (List String × String × Value)) →
    List Char → Option (Value × List Char)
  | 0, _, _, _ => none
  | fuel + 1, levels, read, s =>
    match readKey? s with
    | some (path, key, '=' :: rest) =>
      match readValue? fuel levels (skipSpace rest) with
      | none => none
      | some (v, rest) =>
        let read := (path, key, v) :: read
        match skipSpace rest with
        | ',' :: rest => readEntries? fuel levels read rest
        | '\x7d' :: rest => (inlineTable? read.reverse).map (·, rest)
        | _ => none
    | _ => none

end

/-! ## Documents -/

/-- What begins a section. -/
inductive Header where
  /-- Nothing: the entries belong to the document itself. -/
  | document
  | table (path : List String) (key : String)
  | element (path : List String) (key : String)

/-- A header and the entries below it. -/
structure Section where
  header : Header
  entries : List (List String × String × Value)

/-- Goes past the rest of a line, on which only a comment may stand. -/
def endLine? (s : List Char) : Option (List Char) :=
  match skipComment (skipSpace s) with
  | [] => some []
  | rest => newline? rest

/-- Reads a header behind its first bracket. -/
def readHeader? (s : List Char) : Option (Header × List Char) := do
  match s with
  | '[' :: rest =>
    match ← readKey? rest with
    | (path, key, ']' :: ']' :: rest) => return (.element path key, ← endLine? rest)
    | _ => none
  | _ =>
    match ← readKey? s with
    | (path, key, ']' :: rest) => return (.table path key, ← endLine? rest)
    | _ => none

/-- Reads an entry on a line of its own. -/
def readAssignment? (s : List Char) : Option ((List String × String × Value) × List Char) := do
  match ← readKey? s with
  | (path, key, '=' :: rest) =>
    let rest := skipSpace rest
    let (v, rest) ← readValue? (2 * rest.length + 2) levelLimit rest
    return ((path, key, v), ← endLine? rest)
  | _ => none

/--
Reads sections up to the end of the document; `current` is the one being read, with
its last entry first.
-/
def readSections? : (fuel : Nat) → (read : List Section) → (current : Section) → List Char →
    Option (List Section)
  | 0, _, _, _ => none
  | fuel + 1, read, current, s =>
    let finished : Section := { current with entries := current.entries.reverse }
    match skipSpace s with
    | [] => some (finished :: read).reverse
    | '#' :: rest =>
      match endLine? ('#' :: rest) with
      | some rest => readSections? fuel read current rest
      | none => none
    | '[' :: rest =>
      match readHeader? rest with
      | some (header, rest) => readSections? fuel (finished :: read) ⟨header, []⟩ rest
      | none => none
    | s =>
      match newline? s with
      | some rest => readSections? fuel read current rest
      | none =>
        match readAssignment? s with
        | some (entry, rest) =>
          readSections? fuel read { current with entries := entry :: current.entries } rest
        | none => none

/-- Puts a section into the table of the document. -/
def Section.addTo (members : Members) (s : Section) : Option Members :=
  match s.header with
  | .document => Members.assignAll s.entries members
  | .table path key => Members.through (Members.openTable key s.entries) path members
  | .element path key => Members.through (Members.openElement key s.entries) path members

/-- Reads a document. A byte order mark in front of it is not part of it. -/
def read? (document : String) : Option Value := do
  let s := match document.toList with
    | '\uFEFF' :: rest => rest
    | s => s
  let sections ← readSections? (s.length + 1) [] ⟨.document, []⟩ s
  let members ← sections.foldlM Section.addTo []
  return (Node.table .header members).toValue

end Milling.Toml
