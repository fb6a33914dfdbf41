import Milling.Config.Basic
import Milling.Disk.Path
import Milling.Json.Record
import Milling.Toml.Record

/-!
# Formats of configurations

A configuration is written as TOML or as JSON, and the name of a file says which.
Capitals count: only `toml` and `json` are known.
-/

namespace Milling.Config

/-- A notation for configurations. -/
inductive Format where
  | json
  | toml
deriving DecidableEq, Repr

/-- The format that the name of a file shows. -/
def Format.ofPath (path : String) : Except ConfigFault Format :=
  match Disk.Path.extension? path with
  | none => .error (.unsupported "<none>")
  | some extension =>
    if extension = "json" then .ok .json
    else if extension = "toml" then .ok .toml
    else .error (.unsupported extension)

/-- Why a text is not a configuration. -/
inductive TextFault where
  | json (fault : Json.Fault)
  /-- The text is not TOML. -/
  | notToml
  /-- The text is TOML and does not fit. -/
  | toml (fault : Mismatch)
deriving DecidableEq

/-- The fault in words. -/
def TextFault.message : TextFault → String
  | .json fault => "JSON error: " ++ fault.message
  | .notToml => "TOML error: TOML parse error"
  | .toml fault => "TOML error: TOML parse error\n" ++ fault.message Double.pointed

/-- The TOML form of a configuration. -/
def toToml (c : Config) : String :=
  String.ofList <| Toml.writeTables
    [ { name := "machine", entries := [
          ("feed_rate", Toml.writeNumber c.machine.feedRate),
          ("safe_height", Toml.writeNumber c.machine.safeHeight),
          ("cut_depth", Toml.writeNumber c.machine.cutDepth),
          ("tool_diameter", Toml.writeNumber c.machine.toolDiameter)] },
      { name := "export", entries := [("file_name", Toml.writeText c.fileName)] } ]

/-- The configuration in a TOML document. -/
def ofToml (document : String) : Except TextFault Config :=
  match Toml.read? document with
  | none => .error .notToml
  | some value => (decode (m := Toml.Decoder) value).mapError .toml

/-- The configuration in a JSON document. -/
def ofJson (document : String) : Except TextFault Config :=
  (Json.Reader.run decode document).mapError .json

/-- The text of a configuration. -/
def write : Format → Config → String
  | .json, c => c.toJson.toLines
  | .toml, c => c.toToml

/-- The configuration in a text. -/
def read : Format → String → Except TextFault Config
  | .json, document => ofJson document
  | .toml, document => ofToml document

end Milling.Config
