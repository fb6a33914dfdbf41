import Milling.Disk.Files
import Milling.Session.Basic

/-!
# Exporting programs

The text of a session's program, whatever its mode, is written to a file.
-/

namespace Milling

open Disk (Files Problem StoreProblem)

/-- Why a program could not be exported. -/
inductive ExportFault where
  | directory (path : String) (problem : Problem)
  | file (path : String) (problem : Problem)
deriving DecidableEq, Repr

namespace ExportFault

/-- What could not be done, in words. -/
def message : ExportFault → String
  | .directory path _ => "creating directory " ++ path
  | .file path _ => "writing program to " ++ path

/-- Why it could not be done. -/
def problem : ExportFault → Problem
  | .directory _ problem => problem
  | .file _ problem => problem

end ExportFault

/-- Writes the program of a session to a file. -/
def Session.exportTo {m : Type → Type} [Files m] (s : Session) (path : String) :
    m (Except ExportFault Unit) := do
  return (← Disk.store path s.program).mapError fun
    | .directory parent problem => .directory parent problem
    | .file problem => .file path problem

end Milling
