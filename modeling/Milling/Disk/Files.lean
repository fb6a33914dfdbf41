import Milling.Disk.Path

/-!
# Working with files

What the library needs of a disk is little: to see whether something is a
directory, to read and write whole files, and to make a directory. Everything else
is put together from these, so it can be run on a real disk and reasoned about on
a `Tree`.
-/

namespace Milling.Disk

/-- Why the disk refused something. -/
inductive Problem where
  | missing
  | exists
  | notDirectory
  | isDirectory
  | nameTooLong
  /-- A path holds the character with code zero. -/
  | zeroInPath
  /-- A file that should hold a text does not. -/
  | notText
  /-- Anything else, in the words of the system. -/
  | other (description : String)
deriving DecidableEq, Repr

/-- The problem as the system words it. -/
def Problem.message : Problem → String
  | .missing => "No such file or directory (os error 2)"
  | .exists => "File exists (os error 17)"
  | .notDirectory => "Not a directory (os error 20)"
  | .isDirectory => "Is a directory (os error 21)"
  | .nameTooLong => "File name too long (os error 36)"
  | .zeroInPath => "file name contained an unexpected NUL byte"
  | .notText => "stream did not contain valid UTF-8"
  | .other description => description

/-- What can stand at a path. -/
inductive Kind where
  | directory
  | file
deriving DecidableEq, Repr

/-- A disk. -/
class Files (m : Type → Type) extends Monad m where
  /-- What stands at a path, if anything does. -/
  kind? : String → m (Option Kind)
  readBytes : String → m (Except Problem ByteArray)
  /-- Replaces the content of a file, or makes the file. -/
  writeBytes : String → ByteArray → m (Except Problem Unit)
  /-- Makes one directory. -/
  makeDirectory : String → m (Except Problem Unit)

/-- Bytes as text. -/
def textOfBytes (bytes : ByteArray) : Except Problem String :=
  match String.fromUTF8? bytes with
  | some text => .ok text
  | none => .error .notText

/-- Why a file could not be stored. -/
inductive StoreProblem where
  /-- The directory that is to hold it could not be made. -/
  | directory (path : String) (problem : Problem)
  /-- The file itself could not be written. -/
  | file (problem : Problem)
deriving DecidableEq, Repr

section

variable {m : Type → Type} [Files m]

/-- Whether there is anything at a path. -/
def isThere (path : String) : m Bool := do return (← Files.kind? path).isSome

/-- Whether there is a directory at a path. -/
def isDirectory (path : String) : m Bool := do return (← Files.kind? path) = some .directory

/-- Reads a file that holds a text. -/
def readText (path : String) : m (Except Problem String) := do
  return (← Files.readBytes path) >>= textOfBytes

/-- An answer, but a problem does not count where there is a directory anyway. -/
def unlessDirectory (path : String) : Except Problem Unit → m (Except Problem Unit)
  | .ok () => pure (.ok ())
  | .error problem => do
    if ← isDirectory path then return .ok () else return .error problem

/--
Makes a directory, given with those it is found in from the inside outwards. Only
when the innermost one lacks a place to be in are the others tried.
-/
def makeDirectories : List String → m (Except Problem Unit)
  | [] => pure (.error .missing)
  | path :: outer => do
    if path = "" then return .ok ()
    match ← Files.makeDirectory path with
    | .error .missing =>
      match ← makeDirectories outer with
      | .ok () => unlessDirectory path (← Files.makeDirectory path)
      | .error problem => return .error problem
    | answer => unlessDirectory path answer

/-- Makes the directory that a path leads into, unless the path is a lone name. -/
def makeParent (path : String) : m (Except StoreProblem Unit) :=
  match Disk.Path.parent? path with
  | none => pure (.ok ())
  | some parent => do
    return (← makeDirectories (Disk.Path.ancestors parent)).mapError (.directory parent)

/-- Writes a text to a file, in a directory that is made if need be. -/
def store (path content : String) : m (Except StoreProblem Unit) := do
  match ← makeParent path with
  | .error problem => return .error problem
  | .ok () => return (← Files.writeBytes path content.toUTF8).mapError .file

end

end Milling.Disk
