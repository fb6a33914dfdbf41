import Milling.Geometry.Shape
import Milling.Toolpath.Fault
import Milling.Toolpath.Path

/-!
# From a shape to the paths that cut it

A closed contour is followed with the tool outside it, its centre one tool radius
away, so that the cut edge lands on the outline. Lettering is engraved along the
stroke itself and does not depend on the tool.

The sizes are tested before anything is computed from them, and in a fixed order,
because only the first fault is reported.
-/

namespace Milling.Contour

/-- The open path along a stroke; a stroke without points has none. -/
def ofStroke? {α : Type} : List (Point α) → Option (Path α)
  | [] => none
  | first :: rest => some { start := first, moves := rest.map .line, closed := false }

variable {α : Type} [Scalar α]

/-- Accepts a number that stands for a place or a size. -/
def finite (field : String) (value : α) : Except (GeometryFault α) Unit :=
  if Scalar.isFinite value then .ok () else .error (.notFinite field)

/-- Accepts a finite size above zero. -/
def positive (dimension : String) (value : α) : Except (GeometryFault α) Unit := do
  finite dimension value
  if Scalar.zero < value then .ok () else .error (.notPositive dimension value)

/--
The outside of a rectangle, clockwise as the machine sees it, from the corner with
the smallest coordinates. The sides are compared as computed, so a rectangle whose
sides meet by rounding counts as collapsed too.
-/
def rectangle (radius : α) (corner : Point α) (width height : α) :
    Except (GeometryFault α) (Path α) := do
  finite "x" corner.x
  finite "y" corner.y
  positive "width" width
  positive "height" height
  finite "tool radius" radius
  let left := corner.x - radius
  let top := corner.y - radius
  let right := corner.x + width + radius
  let bottom := corner.y + height + radius
  if left < right ∧ top < bottom then
    .ok {
      start := ⟨left, top⟩
      moves := [.line ⟨left, bottom⟩, .line ⟨right, bottom⟩, .line ⟨right, top⟩, .line ⟨left, top⟩]
      closed := true }
  else .error (.collapsed (right - left) (bottom - top))

/-- The outside of a circle: one clockwise arc that starts and ends at angle zero. -/
def circle (radius : α) (center : Point α) (shapeRadius : α) :
    Except (GeometryFault α) (Path α) := do
  finite "x" center.x
  finite "y" center.y
  positive "radius" shapeRadius
  finite "tool radius" radius
  let effective := shapeRadius + radius
  if Scalar.zero < effective then
    let start : Point α := ⟨center.x + effective, center.y⟩
    .ok { start, moves := [.arc start center .clockwise], closed := true }
  else .error (.radiusLost effective)

/-- One open path for each stroke of a text. -/
def lettering (origin : Point α) (content : String) (size : α) :
    Except (GeometryFault α) (List (Path α)) := do
  finite "x" origin.x
  finite "y" origin.y
  positive "font size" size
  .ok ((Lettering.layout content origin size).filterMap ofStroke?)

/-- The paths that cut a shape with a tool of the given radius. -/
def ofShape (radius : α) : Shape α → Except (GeometryFault α) (List (Path α))
  | .rectangle corner width height => do .ok [← rectangle radius corner width height]
  | .circle center shapeRadius => do .ok [← circle radius center shapeRadius]
  | .text origin content size => lettering origin content size

end Milling.Contour
