import Milling.Number.Double

/-!
# The arithmetic that geometry needs

Shapes, contours and lettering are computed with a handful of operations, and
nothing in them depends on how numbers are represented. Geometry is therefore
written once over `Scalar` and read twice: over doubles it is what the machine is
told, and over rationals it is the same geometry without rounding.
-/

namespace Milling

/-- Numbers that coordinates can be made of. -/
class Scalar (α : Type) extends Add α, Sub α, Mul α, Div α, Neg α, LT α where
  /-- The order can be tested. -/
  decidableLT : DecidableLT α
  /-- A small whole number, such as a grid coordinate or a character position. -/
  ofNat : Nat → α
  /-- Whether the number stands for a place on the work surface at all. -/
  isFinite : α → Bool
  /-- The smaller of two numbers; what is not a number gives way to what is. -/
  lesser : α → α → α
  /-- The greater of two numbers; what is not a number gives way to what is. -/
  greater : α → α → α
  /-- The number without its sign. -/
  magnitude : α → α
  /-- What is left of the first after whole multiples of the second, with the sign of the first. -/
  remainder : α → α → α

namespace Scalar

instance {α : Type} [Scalar α] : DecidableLT α := decidableLT

/-- Zero, as a scalar. -/
def zero {α : Type} [Scalar α] : α := ofNat 0

end Scalar

namespace Double

/-- The smaller double; of two equal ones the first. -/
def lesser (a b : Float) : Float :=
  if a.isNaN then b else if b < a then b else a

/-- The greater double; of two equal ones the first. -/
def greater (a b : Float) : Float :=
  if a.isNaN then b else if a < b then b else a

/--
The exact remainder of two doubles. It is always a double itself, because it is
a whole multiple of the smaller of the two last places and below the divisor.
-/
def remainder (a b : Float) : Float :=
  match view a, view b with
  | .finite negative m e, .finite _ n f =>
    if n = 0 then nan
    else
      let place := min e f
      let rest := (m * Nat.pow 2 (e - place).toNat) % (n * Nat.pow 2 (f - place).toNat)
      nearest negative (rest * Nat.pow 2 place.toNat) (Nat.pow 2 (-place).toNat)
  | .finite .., .infinite _ => a
  | _, _ => nan

end Double

instance : Scalar Float where
  decidableLT := inferInstance
  ofNat := Double.ofNat
  isFinite x := x.isFinite
  lesser := Double.lesser
  greater := Double.greater
  magnitude x := x.abs
  remainder := Double.remainder

instance : Scalar Rat where
  decidableLT := inferInstance
  ofNat n := n
  isFinite _ := true
  lesser a b := if b < a then b else a
  greater a b := if a < b then b else a
  magnitude x := if x < 0 then -x else x
  remainder a b := a - b * if a / b < 0 then (a / b).ceil else (a / b).floor

end Milling
