import Milling.Geometry.Lettering

/-!
# Shapes

The three things a drawing can hold: a rectangle by its corner, a circle by its
centre, and a text by the start of its baseline. Each has a place, an extent and
can be moved; whether it can be cut is for the planner to say, so sizes may be
zero, negative or not numbers at all.
-/

namespace Milling

/-- A shape on the work surface. -/
inductive Shape (α : Type) where
  /-- An upright rectangle, placed by the corner with the smallest coordinates. -/
  | rectangle (corner : Point α) (width height : α)
  | circle (center : Point α) (radius : α)
  /-- Lettering whose baseline starts at `origin`; the size is the height of a capital. -/
  | text (origin : Point α) (content : String) (size : α)
deriving DecidableEq

namespace Shape

/-- Which of the three a shape is. -/
inductive Kind where
  | rectangle
  | circle
  | text
deriving DecidableEq, Repr

namespace Kind

/-- The name of a kind, as programs and documents show it. -/
def name : Kind → String
  | .rectangle => "Rectangle"
  | .circle => "Circle"
  | .text => "Text"

/-- All kinds, in the order in which they are listed to a reader. -/
def all : List Kind := [.rectangle, .circle, .text]

/-- The kind of a given name. -/
def ofName? (name : String) : Option Kind := all.find? (·.name = name)

end Kind

/-- The smallest and largest coordinates of an upright box. -/
structure Bounds (α : Type) where
  minX : α
  minY : α
  maxX : α
  maxY : α
deriving DecidableEq, Repr

/-- Which kind of shape this is. -/
def kind {α : Type} : Shape α → Kind
  | .rectangle .. => .rectangle
  | .circle .. => .circle
  | .text .. => .text

/-- The point that a shape is placed by. -/
def origin {α : Type} : Shape α → Point α
  | .rectangle corner _ _ => corner
  | .circle center _ => center
  | .text origin _ _ => origin

variable {α : Type} [Scalar α]

/-- The box around a shape. Letters rise from the baseline towards smaller `y`. -/
def bounds : Shape α → Bounds α
  | .rectangle corner width height =>
    let right := corner.x + width
    let bottom := corner.y + height
    { minX := Scalar.lesser corner.x right, minY := Scalar.lesser corner.y bottom
      maxX := Scalar.greater corner.x right, maxY := Scalar.greater corner.y bottom }
  | .circle center radius =>
    let reach := Scalar.magnitude radius
    { minX := center.x - reach, minY := center.y - reach
      maxX := center.x + reach, maxY := center.y + reach }
  | .text origin content size =>
    { minX := origin.x, minY := origin.y - size
      maxX := origin.x + Lettering.width content size, maxY := origin.y }

/-- The shape moved by `dx` and `dy`. -/
def translate (dx dy : α) : Shape α → Shape α
  | .rectangle corner width height => .rectangle (corner.shift dx dy) width height
  | .circle center radius => .circle (center.shift dx dy) radius
  | .text origin content size => .text (origin.shift dx dy) content size

/-- The middle of a rectangle; the other kinds are not placed by a corner and have no use for it. -/
def center? : Shape α → Option (Point α)
  | .rectangle corner width height =>
    some ⟨corner.x + width / Scalar.ofNat 2, corner.y + height / Scalar.ofNat 2⟩
  | _ => none

/-- The shape that a newly added item of a kind starts as. -/
def initial : Kind → Shape α
  | .rectangle =>
    .rectangle ⟨Scalar.ofNat 50, Scalar.ofNat 50⟩ (Scalar.ofNat 50) (Scalar.ofNat 50)
  | .circle => .circle ⟨Scalar.ofNat 100, Scalar.ofNat 100⟩ (Scalar.ofNat 25)
  | .text => .text ⟨Scalar.ofNat 50, Scalar.ofNat 150⟩ "CNC" (Scalar.ofNat 24)

end Shape

end Milling
