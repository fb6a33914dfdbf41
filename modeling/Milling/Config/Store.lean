import Milling.Config.Format
import Milling.Disk.Files

/-!
# Stored configurations

Configurations are checked on both sides of the disk: what is loaded has passed
the check, and what fails it is never stored. When loading, a file whose name shows
no known format is not even looked at.
-/

namespace Milling.Config

open Disk (Files Problem)

/-- Why a configuration could not be loaded or stored. -/
inductive StoreFault where
  | unreadable (path : String) (problem : Problem)
  | unwritable (path : String) (problem : Problem)
  /-- The directory of the file could not be made. -/
  | noDirectory (problem : Problem)
  /-- There is no place for configurations. -/
  | noPlace
  | text (fault : TextFault)
  | refused (fault : ConfigFault)
deriving DecidableEq

/-- The fault in words. -/
def StoreFault.message : StoreFault → String
  | .unreadable path problem => "Failed to load settings: " ++ path ++ ": " ++ problem.message
  | .unwritable path problem => "Failed to save settings: " ++ path ++ ": " ++ problem.message
  | .noDirectory problem => "I/O error: " ++ problem.message
  | .noPlace => "Config directory error: platform has no config directory"
  | .text fault => fault.message
  | .refused fault => "Config error: " ++ fault.message

/-- The configuration in the text of a file, if it passes the check. -/
def accept (format : Format) (document : String) : Except StoreFault Config := do
  let config ← (read format document).mapError .text
  config.check.mapError .refused
  return config

/-- What a user has set up about where things are kept. -/
structure Environment where
  /-- The user's own directory. -/
  home? : Option String
  /-- Where the user wants configurations to be kept; it counts only if it is absolute. -/
  configHome? : Option String

/-- The directory for configurations of all programs. -/
def Environment.configDirectory? (e : Environment) : Option String :=
  match e.configHome?.filter Disk.Path.isAbsolute with
  | some directory => some directory
  | none => (e.home?.filter (· ≠ "")).map (Disk.Path.join · ".config")

/-- Where the configuration is when nothing else is said. -/
def defaultPath (e : Environment) : Except StoreFault String :=
  match e.configDirectory? with
  | some directory =>
    .ok (Disk.Path.join (Disk.Path.join directory "cutplan") "config.toml")
  | none => .error .noPlace

variable {m : Type → Type} [Files m]

/-- Loads a configuration. -/
def load (path : String) : m (Except StoreFault Config) := do
  match Format.ofPath path with
  | .error fault => return .error (.refused fault)
  | .ok format =>
    match ← Disk.readText path with
    | .error problem => return .error (.unreadable path problem)
    | .ok document => return accept format document

/-- Loads a configuration if there is one, and takes the standard one otherwise. -/
def loadOrStandard (path : String) : m (Except StoreFault Config) := do
  if ← Disk.isThere path then load path else return .ok standard

/-- What will be written to a file, if the configuration may be stored there at all. -/
def document (config : Config) (path : String) : Except StoreFault String := do
  config.check.mapError .refused
  return write (← (Format.ofPath path).mapError .refused) config

/-- Stores a configuration. -/
def save (config : Config) (path : String) : m (Except StoreFault Unit) := do
  match config.document path with
  | .error fault => return .error fault
  | .ok text =>
    return (← Disk.store path text).mapError fun
      | .directory _ problem => .noDirectory problem
      | .file problem => .unwritable path problem

end Milling.Config
