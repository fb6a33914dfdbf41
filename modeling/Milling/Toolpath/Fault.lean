import Milling.Number.Text

/-!
# Why a shape cannot be cut

One shape that cannot be planned does not stop the others. It is left out of the
program with a reason, and these are the reasons.
-/

namespace Milling

/-- What is wrong with the geometry of a shape. -/
inductive GeometryFault (α : Type) where
  /-- A size that has to be above zero is not. -/
  | notPositive (dimension : String) (value : α)
  /-- The tool is so far inside a circle that nothing is left of it. -/
  | radiusLost (effective : α)
  /-- The tool is so far inside a rectangle that its sides meet. -/
  | collapsed (width height : α)
  /-- A coordinate or a size is infinite or not a number. -/
  | notFinite (field : String)
deriving DecidableEq, Repr

/-- The reason in words. -/
def GeometryFault.message : GeometryFault Float → String
  | .notPositive dimension value =>
    dimension ++ " must be positive, got " ++ Double.plain value
  | .radiusLost effective =>
    "effective radius must be positive after tool offset, got " ++ Double.plain effective
  | .collapsed width height =>
    "contour collapsed by tool offset to " ++ Double.plain width ++ " x " ++ Double.plain height
  | .notFinite field => field ++ " is not a finite number"

end Milling
