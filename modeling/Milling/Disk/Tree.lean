import Milling.Disk.Files

/-!
# Trees of files

A disk as a value: directories and files, each under the names that lead to it.
Paths are followed name by name from the root, or from the directory that one
works in, and every name has to be looked up in a directory. Two dots lead back,
from the root to the root.
-/

namespace Milling.Disk

/-- The names that lead to a place on the disk, the innermost first; none for the root. -/
abbrev Place := List String

/-- What stands at a place. -/
inductive Entry where
  | directory
  | file (content : ByteArray)

/-- Which of the two an entry is. -/
def Entry.kind : Entry → Kind
  | .directory => .directory
  | .file _ => .file

/-- A disk and the directory on it that one works in. -/
structure Tree where
  entries : List (Place × Entry)
  home : Place

namespace Tree

/-- The longest name that a directory can hold, in bytes. -/
def nameLimit : Nat := 255

/-- The length from which on a path is too long, in bytes. -/
def pathLimit : Nat := 4096

/-- What stands at a place. The root is always a directory. -/
def get? (t : Tree) : Place → Option Entry
  | [] => some .directory
  | place => t.entries.lookup place

/-- Puts an entry at a place, instead of what was there. -/
def put (t : Tree) (place : Place) (entry : Entry) : Tree :=
  { t with entries := (place, entry) :: t.entries.filter fun e => e.1 ≠ place }

/-- An entry is found where it was put. -/
theorem get?_put_self (t : Tree) (name : String) (place : Place) (entry : Entry) :
    (t.put (name :: place) entry).get? (name :: place) = some entry := by
  simp [get?, put]

/-- Putting an entry changes no other place. -/
theorem get?_put_of_ne (t : Tree) (entry : Entry) {place other : Place} (h : other ≠ place) :
    (t.put place entry).get? other = t.get? other := by
  cases other with
  | nil => rfl
  | cons name outer =>
    have hkeep : ∀ entries : List (Place × Entry),
        (entries.filter fun e => e.1 ≠ place).lookup (name :: outer) =
          entries.lookup (name :: outer) := by
      intro entries
      induction entries with
      | nil => rfl
      | cons e rest ih =>
        obtain ⟨key, kept⟩ := e
        by_cases hk : key = place
        · subst hk
          have hne : ((name :: outer) == key) = false := by simpa using h
          simp [List.lookup_cons, hne, ← ih]
        · rw [List.filter_cons_of_pos (by simpa using hk)]
          simp only [List.lookup_cons]
          split
          · rfl
          · exact ih
    have hne : ((name :: outer) == place) = false := by simpa using h
    simp only [get?, put, List.lookup_cons, hne]
    exact hkeep t.entries

/-- The content of the file at a place. -/
def file? (t : Tree) (place : Place) : Option ByteArray :=
  match t.get? place with
  | some (.file content) => some content
  | _ => none

/-- Requires a directory at a place. -/
def enter (t : Tree) (place : Place) : Except Problem Place :=
  match t.get? place with
  | some .directory => .ok place
  | some (.file _) => .error .notDirectory
  | none => .error .missing

/-- Finds a name in a directory. -/
def find (t : Tree) (directory : Place) (name : String) : Except Problem Place :=
  if nameLimit < name.utf8ByteSize then .error .nameTooLong
  else match t.get? (name :: directory) with
    | some _ => .ok (name :: directory)
    | none => .error .missing

/-- Follows one name of a path. -/
def step (t : Tree) (place : Place) (name : String) : Except Problem Place := do
  let directory ← t.enter place
  if name = "" ∨ name = "." then .ok directory
  else if name = ".." then .ok directory.tail
  else t.find directory name

/-- Follows names, one after the other. -/
def follow (t : Tree) (names : List String) (place : Place) : Except Problem Place :=
  names.foldlM t.step place

/-- Where a path begins, and its names; no path is empty. -/
def begin (t : Tree) (path : String) : Except Problem (Place × List String) :=
  if path.contains '\x00' then .error .zeroInPath
  else if pathLimit ≤ path.utf8ByteSize then .error .nameTooLong
  else if path = "" then .error .missing
  else
    .ok (if Path.isAbsolute path then [] else t.home,
      (Path.names path.toList).map String.ofList)

/-- The place that a path leads to. -/
def locate (t : Tree) (path : String) : Except Problem Place := do
  let (place, names) ← t.begin path
  t.follow names place

/-- Where something new would be put. -/
structure Target where
  directory : Place
  /-- The name in the directory; none if the path ends in no name of its own. -/
  name? : Option String
  /-- Whether a slash follows the name. -/
  slash : Bool

/-- Follows a path up to its last name, which nothing need stand under. -/
def target (t : Tree) (path : String) : Except Problem Target := do
  let (place, names) ← t.begin path
  let backward := names.reverse
  let slash := backward.head? = some ""
  match backward.dropWhile (· = "") with
  | [] => .ok { directory := place, name? := none, slash }
  | last :: outer =>
    let directory ← t.enter (← t.follow outer.reverse place)
    .ok { directory, name? := if last = "." ∨ last = ".." then none else some last, slash }

/-- The content of the file that a path leads to. -/
def read (t : Tree) (path : String) : Except Problem ByteArray := do
  match t.get? (← t.locate path) with
  | some (.file content) => .ok content
  | some .directory => .error .isDirectory
  | none => .error .missing

/-- The tree with a file written. A path that ends in a slash names no file. -/
def write (t : Tree) (path : String) (content : ByteArray) : Except Problem Tree := do
  let target ← t.target path
  match target.name? with
  | none => .error .isDirectory
  | some name =>
    if target.slash then .error .isDirectory
    else if nameLimit < name.utf8ByteSize then .error .nameTooLong
    else match t.get? (name :: target.directory) with
      | some .directory => .error .isDirectory
      | _ => .ok (t.put (name :: target.directory) (.file content))

/-- The tree with a directory made. -/
def makeDirectory (t : Tree) (path : String) : Except Problem Tree := do
  let target ← t.target path
  match target.name? with
  | none => .error .exists
  | some name =>
    if nameLimit < name.utf8ByteSize then .error .nameTooLong
    else match t.get? (name :: target.directory) with
      | some _ => .error .exists
      | none => .ok (t.put (name :: target.directory) .directory)

/-- What stands where a path leads. -/
def kind? (t : Tree) (path : String) : Option Kind :=
  match t.locate path with
  | .ok place => (t.get? place).map Entry.kind
  | .error _ => none

/-- Changes the tree, unless that is refused. -/
def change (f : Tree → Except Problem Tree) : StateM Tree (Except Problem Unit) := do
  match f (← get) with
  | .ok changed => do
    set changed
    return .ok ()
  | .error problem => return .error problem

instance : Files (StateM Tree) where
  kind? path := do return (← get).kind? path
  readBytes path := do return (← get).read path
  writeBytes path content := change (·.write path content)
  makeDirectory path := change (·.makeDirectory path)

end Tree

end Milling.Disk
