import Milling.Command.Arguments
import Milling.Config.Store
import Milling.Drawing.Record
import Milling.Session.Export

/-!
# Running commands

A command reads and writes files and answers with what is to be shown, or with why
it failed. It fails before it writes anything wherever it can: the configuration
is loaded first, then the drawing is read, and only then is a program written.
-/

namespace Milling.Command

open Disk (Files Problem)

/-- Why a command failed. -/
inductive Fault where
  | config (fault : Config.StoreFault)
  | unreadInput (problem : Problem)
  | unreadScene (path : String) (problem : Problem)
  | scene (fault : Drawing.DocumentFault)
  | unwritten (fault : ExportFault)
  /-- The file is there and was not to be replaced. -/
  | alreadyThere (path : String)

namespace Fault

/-- What went wrong, in words. -/
def message : Fault → String
  | .config fault => fault.message
  | .unreadInput _ => "reading scene from stdin"
  | .unreadScene path _ => "reading " ++ path
  | .scene fault => fault.message
  | .unwritten fault => fault.message
  | .alreadyThere path => path ++ " already exists (use --force to overwrite)"

/-- What lies behind a fault whose message does not say it. -/
def cause? : Fault → Option String
  | .unreadInput problem => some problem.message
  | .unreadScene _ problem => some problem.message
  | .scene (.text fault) => some fault.message
  | .unwritten fault => some fault.problem.message
  | _ => none

end Fault

/-- What a command has around it. -/
structure Surroundings (m : Type → Type) where
  environment : Config.Environment
  /-- Reads everything that is on standard input. -/
  input : m (Except Problem ByteArray)

variable {m : Type → Type} [Files m]

/-- Loads the configuration at a path, or the user's own. -/
def loadConfig (environment : Config.Environment) :
    Option String → m (Except Config.StoreFault Config)
  | some path => Config.load path
  | none =>
    match Config.defaultPath environment with
    | .ok path => Config.loadOrStandard path
    | .error fault => return .error fault

/-- Reads the text of a drawing from a file, or from standard input for a lone dash. -/
def readScene (input : m (Except Problem ByteArray)) (path : String) : m (Except Fault String) := do
  if path = "-" then
    return ((← input) >>= Disk.textOfBytes).mapError .unreadInput
  else
    return (← Disk.readText path).mapError (.unreadScene path)

/-- Where a program goes: in a directory it takes the configured name. -/
def outputPath (config : Config) (path : String) : m String := do
  if ← Disk.isDirectory path then return Disk.Path.join path config.fileName else return path

/-- Delivers the program of a session to a file, or to be shown. -/
def deliver (config : Config) (session : Session) : Option String → m (Except Fault String)
  | none => return .ok session.program
  | some path => do
    match ← session.exportTo (← outputPath config path) with
    | .ok () => return .ok ""
    | .error fault => return .error (.unwritten fault)

/-- Compiles a drawing. -/
def compileScene (s : Surroundings m) (scene : String) (config? output? : Option String) :
    m (Except Fault String) := do
  match ← loadConfig s.environment config? with
  | .error fault => return .error (.config fault)
  | .ok config =>
    match ← readScene s.input scene with
    | .error fault => return .error fault
    | .ok document =>
      match Drawing.ofJson document with
      | .error fault => return .error (.scene fault)
      | .ok drawing => deliver config (Session.start drawing config.machine) output?

/-- Writes the standard configuration to a file. -/
def writeConfig (path : String) (force : Bool) : m (Except Fault String) := do
  if (← Disk.isThere path) && !force then return .error (.alreadyThere path)
  match ← Config.standard.save path with
  | .ok () => return .ok ("Wrote default config to " ++ path ++ "\n")
  | .error fault => return .error (.config fault)

/-- Runs a command; the answer is what it shows. -/
def run (s : Surroundings m) : Command → m (Except Fault String)
  | .generate scene config? output? => compileScene s scene config? output?
  | .initConfig (some path) force => writeConfig path force
  | .initConfig none force =>
    match Config.defaultPath s.environment with
    | .ok path => writeConfig path force
    | .error fault => return .error (.config fault)

end Milling.Command
