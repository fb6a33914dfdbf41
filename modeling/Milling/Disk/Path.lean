/-!
# Paths

A path is a text of names between slashes. Everything here looks at the text alone
and asks no disk: what the last name is, what follows its last dot, and which path
the last name is found in. Slashes at the end and steps to where one already is do
not count as names.
-/

namespace Milling.Disk.Path

/-- Whether a path starts at the root of the disk. -/
def isAbsolute (path : String) : Bool := path.toList.head? = some '/'

/-! Paths are taken apart from the end, so their characters are held last one first. -/

/-- Drops what follows the last name; the slash of the root and a lone dot stay. -/
def trim : List Char → List Char
  | ['/'] => ['/']
  | '/' :: rest => trim rest
  | ['.'] => ['.']
  | '.' :: '/' :: rest => trim ('/' :: rest)
  | rest => rest

/-- The last name of a path, unless it leads back or nowhere. -/
def name? (path : String) : Option String :=
  let last := String.ofList ((trim path.toList.reverse).takeWhile (· ≠ '/')).reverse
  if last = "" ∨ last = "." ∨ last = ".." then none else some last

/-- What follows the last dot of the last name, unless nothing stands before that dot. -/
def extension? (path : String) : Option String := do
  let backward := (← name? path).toList.reverse
  let extension := backward.takeWhile (· ≠ '.')
  match backward.dropWhile (· ≠ '.') with
  | '.' :: _ :: _ => some (String.ofList extension.reverse)
  | _ => none

/-- The path that the last name of a path is found in. -/
def parent? (path : String) : Option String :=
  match trim path.toList.reverse with
  | [] => none
  | ['/'] => none
  | last => some (String.ofList (trim (last.dropWhile (· ≠ '/'))).reverse)

/-- A path and those it is found in, from the inside outwards. -/
def ancestorsWithin : (fuel : Nat) → String → List String
  | 0, path => [path]
  | fuel + 1, path =>
    path :: match parent? path with
      | some outer => ancestorsWithin fuel outer
      | none => []

/-- A path and those it is found in; each is shorter than the one before. -/
def ancestors (path : String) : List String := ancestorsWithin path.length path

/-- The path of something inside `directory`; an absolute path stays as it is. -/
def join (directory path : String) : String :=
  if isAbsolute path then path
  else if directory = "" ∨ directory.toList.getLast? = some '/' then directory ++ path
  else directory ++ "/" ++ path

/-- The names that lead along a path, with an empty one for each superfluous slash. -/
def names : List Char → List (List Char)
  | [] => [[]]
  | c :: rest =>
    if c = '/' then [] :: names rest
    else match names rest with
      | [] => [[c]]
      | name :: more => (c :: name) :: more

end Milling.Disk.Path
