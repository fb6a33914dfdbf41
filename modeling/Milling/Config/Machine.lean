import Milling.Number.Scalar
import Milling.Number.Text

/-!
# Machine parameters

What a program needs to know about the machine: how fast it cuts, how high it
travels, how deep it goes and how wide the tool is. Values are checked where a
configuration enters or leaves, not where they are used, so a `Machine` may hold
anything and `check` says what is wrong with it.
-/

namespace Milling

/-- The parameters of a machine, in millimetres and millimetres per minute. -/
structure Machine where
  feedRate : Float
  /-- The height at which the tool may travel. -/
  safeHeight : Float
  /-- How far below the surface the tool cuts. -/
  cutDepth : Float
  toolDiameter : Float
deriving DecidableEq

/-- What is wrong with a configuration. -/
inductive ConfigFault where
  /-- The name of the file shows no format that is known. -/
  | unsupported (extension : String)
  /-- A number violates what is required of it. -/
  | outOfRange (key : String) (value : Float) (requirement : String)
  /-- A text that has to be there is blank. -/
  | missing (key : String)
deriving DecidableEq

/-- The fault in words. -/
def ConfigFault.message : ConfigFault → String
  | .unsupported extension => "Unsupported config format: " ++ extension
  | .outOfRange key value requirement =>
    "Value out of range for '" ++ key ++ "': " ++ Double.plain value ++ " (" ++ requirement ++ ")"
  | .missing key => "Missing configuration value: " ++ key

namespace Machine

/-- The machine that is assumed when nothing else is said. -/
def standard : Machine where
  feedRate := Double.ofNat 800
  safeHeight := Double.ofNat 5
  cutDepth := Double.ofNat 2
  toolDiameter := Double.ofDecimal false 3175 (-3)

/-- The distance of the tool's centre from its edge. -/
def toolRadius (m : Machine) : Float := m.toolDiameter / Double.ofNat 2

/-- Requires a finite number above zero. -/
def checkPositive (key : String) (value : Float) : Except ConfigFault Unit :=
  if value.isFinite ∧ Double.ofNat 0 < value then .ok ()
  else .error (.outOfRange key value "must be > 0")

/-- Requires a finite number that is not below zero. -/
def checkNotNegative (key : String) (value : Float) : Except ConfigFault Unit :=
  if value.isFinite ∧ Double.ofNat 0 ≤ value then .ok ()
  else .error (.outOfRange key value "must be >= 0")

/-- Accepts usable parameters and names the first that is not. -/
def check (m : Machine) : Except ConfigFault Unit := do
  checkPositive "machine.feed_rate" m.feedRate
  checkNotNegative "machine.safe_height" m.safeHeight
  checkPositive "machine.cut_depth" m.cutDepth
  checkPositive "machine.tool_diameter" m.toolDiameter

end Machine

end Milling
