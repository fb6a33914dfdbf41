import Milling.Config.Machine
import Milling.Document.Decoding
import Milling.Json.Value
import Milling.Text.Control

/-!
# Configurations

A configuration holds the machine and the name that programs are stored under.
Either part may be left out of a document and is then the standard one, but a part
that is there has to be complete.
-/

namespace Milling

/-- The machine to compile for and the name to store programs under. -/
structure Config where
  machine : Machine
  fileName : String
deriving DecidableEq

namespace Config

/-- The configuration that holds when there is none. -/
def standard : Config := { machine := Machine.standard, fileName := "toolpath.gcode" }

/-- Accepts a usable machine and a name that shows, and names the first fault. -/
def check (c : Config) : Except ConfigFault Unit := do
  c.machine.check
  if c.fileName.toList.all Text.isBlank then .error (.missing "export.file_name")

end Config

/-! ## Reading -/

namespace Machine

/-- The parameters read so far. -/
structure Draft where
  feedRate : Option Float := none
  safeHeight : Option Float := none
  cutDepth : Option Float := none
  toolDiameter : Option Float := none

variable {m : Type → Type} [Decoding m]

/-- The fields of a machine, each under two spellings. -/
def fields : List (Field m Draft) :=
  [ Decoding.field "feed_rate" ["feedRate"] Decoding.number
      Draft.feedRate (fun d x => { d with feedRate := some x }),
    Decoding.field "safe_height" ["safeHeight"] Decoding.number
      Draft.safeHeight (fun d x => { d with safeHeight := some x }),
    Decoding.field "cut_depth" ["cutDepth"] Decoding.number
      Draft.cutDepth (fun d x => { d with cutDepth := some x }),
    Decoding.field "tool_diameter" ["toolDiameter"] Decoding.number
      Draft.toolDiameter (fun d x => { d with toolDiameter := some x }) ]

/-- Reads a machine. -/
def decode : m Machine := do
  let draft ← Decoding.record "struct MachineSettings" fields {}
  return {
    feedRate := ← Decoding.require "feed_rate" draft.feedRate
    safeHeight := ← Decoding.require "safe_height" draft.safeHeight
    cutDepth := ← Decoding.require "cut_depth" draft.cutDepth
    toolDiameter := ← Decoding.require "tool_diameter" draft.toolDiameter }

end Machine

namespace Config

variable {m : Type → Type} [Decoding m]

/-- The only field of the part about storing. -/
def exportFields : List (Field m (Option String)) :=
  [Decoding.field "file_name" [] Decoding.text id (fun _ name => some name)]

/-- Reads the part about storing. -/
def decodeExport : m String := do
  Decoding.require "file_name" (← Decoding.record "struct ExportSettings" exportFields none)

/-- The parts read so far. -/
structure Draft where
  machine : Option Machine := none
  fileName : Option String := none

/-- The parts of a configuration, neither of them required. -/
def fields : List (Field m Draft) :=
  [ { Decoding.field "machine" [] Machine.decode
        Draft.machine (fun d machine => { d with machine := some machine }) with
      required := false },
    { Decoding.field "export" [] decodeExport
        Draft.fileName (fun d name => { d with fileName := some name }) with
      required := false } ]

/-- Reads a configuration. -/
def decode : m Config := do
  let draft ← Decoding.record "struct Config" fields {}
  return {
    machine := draft.machine.getD standard.machine
    fileName := draft.fileName.getD standard.fileName }

end Config

/-! ## Writing -/

/-- The JSON form of a machine. -/
def Machine.toJson (m : Machine) : Json.Value :=
  .object [
    ("feed_rate", .number m.feedRate),
    ("safe_height", .number m.safeHeight),
    ("cut_depth", .number m.cutDepth),
    ("tool_diameter", .number m.toolDiameter)]

/-- The JSON form of a configuration. -/
def Config.toJson (c : Config) : Json.Value :=
  .object [
    ("machine", c.machine.toJson),
    ("export", .object [("file_name", .text c.fileName)])]

end Milling
