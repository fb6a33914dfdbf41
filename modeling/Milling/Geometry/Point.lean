import Milling.Number.Scalar

/-!
# Points

A point of the work surface. `x` grows to the right and `y` away from the
machine's origin, in millimetres.
-/

namespace Milling

/-- A place on the work surface. -/
structure Point (α : Type) where
  x : α
  y : α
deriving DecidableEq, Repr

namespace Point

variable {α : Type} [Scalar α]

/-- The point moved by `dx` and `dy`. -/
def shift (p : Point α) (dx dy : α) : Point α := ⟨p.x + dx, p.y + dy⟩

/-- The length of the straight line between two points. -/
def distance (p q : Point Float) : Float :=
  let dx := p.x - q.x
  let dy := p.y - q.y
  (dx * dx + dy * dy).sqrt

end Point

end Milling
