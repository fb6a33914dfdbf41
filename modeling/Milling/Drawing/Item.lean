import Milling.Geometry.Shape
import Milling.Text.Control

/-!
# Items of a drawing

An item is a shape under a name. The name ends up in a comment of the program, on
one line with other text, so it must be there and must not hold anything that
could end the line.
-/

namespace Milling

/-- A named shape. -/
structure Item (α : Type) where
  id : String
  shape : Shape α
deriving DecidableEq

/-- Whether a name may stand in a drawing: it is not empty and holds no control character. -/
def Item.validId (id : String) : Bool :=
  id ≠ "" && !id.toList.any Text.isControl

end Milling
