import Milling.Number.Double

/-!
# Decimals and the shortest one for a double

A decimal is a coefficient and a power of ten. Of all decimals that read back as
a given double, `shortest` finds the one with the fewest digits, and of those the
one nearest to the double; where two are equally near, the caller says which. The
search walks down the powers of ten: on each grid only the two neighbours of the
double can be close enough, because any grid point in the interval of numbers that
round to the double has a neighbour of the double at least as close.
-/

namespace Milling

/-- The number `coefficient * 10 ^ exponent`. -/
structure Decimal where
  coefficient : Nat
  exponent : Int
deriving DecidableEq, Repr

namespace Decimal

/-- The decimal digits of the coefficient, most significant first. -/
def digits (d : Decimal) : List Char := Nat.toDigits 10 d.coefficient

/-- Where the decimal point stands, counted in places after the first digit's left edge. -/
def point (d : Decimal) : Int := d.digits.length + d.exponent

/--
The interval of numbers that round to one double, over a common denominator.
The ends belong to it exactly when the double's significand is even.
-/
structure Neighbourhood where
  low : Nat
  value : Nat
  high : Nat
  scale : Nat
  closed : Bool

/--
The numbers that round to `significand * 2 ^ exponent`, in quarters of the last
place: half a place on each side, but only a quarter below a power of two, where
the doubles underneath lie twice as close.
-/
def Neighbourhood.of (significand : Nat) (exponent : Int) : Neighbourhood :=
  let below := if significand = Nat.pow 2 52 ∧ -1074 < exponent then 1 else 2
  let place := exponent - 2
  let unit := Nat.pow 2 place.toNat
  { low := (4 * significand - below) * unit
    value := 4 * significand * unit
    high := (4 * significand + 2) * unit
    scale := Nat.pow 2 (-place).toNat
    closed := significand % 2 = 0 }

namespace Neighbourhood

/-- The interval with every number divided by `10 ^ exponent`. -/
def inUnitsOf (n : Neighbourhood) (exponent : Int) : Neighbourhood :=
  let grow := Nat.pow 10 (-exponent).toNat
  { n with
    low := n.low * grow, value := n.value * grow, high := n.high * grow
    scale := n.scale * Nat.pow 10 exponent.toNat }

/-- Whether a whole number lies in the interval. -/
def contains (n : Neighbourhood) (c : Nat) : Bool :=
  if n.closed then n.low ≤ c * n.scale && c * n.scale ≤ n.high
  else n.low < c * n.scale && c * n.scale < n.high

/--
The whole number in the interval that is nearest to its value, if one is in it.
Of two in it that are equally near, `tie` says which.
-/
def nearestWhole? (tie : Tie) (n : Neighbourhood) : Option Nat :=
  let floor := n.value / n.scale
  let low := n.contains floor
  let high := n.contains (floor + 1)
  if low && high then some (roundNearest tie n.value n.scale)
  else if low then some floor
  else if high then some (floor + 1)
  else none

/--
Walks down the powers of ten from `10 ^ top` until one of them has a multiple in
the interval.
-/
def coarsest? (tie : Tie) (n : Neighbourhood) : Nat → Int → Option Decimal
  | 0, _ => none
  | tries + 1, top =>
    match (n.inUnitsOf top).nearestWhole? tie with
    | some c => some ⟨c, top⟩
    | none => n.coarsest? tie tries (top - 1)

end Neighbourhood

/-- The decimal that is exactly `significand * 2 ^ exponent`. -/
def exact (significand : Nat) (exponent : Int) : Decimal :=
  if 0 ≤ exponent then ⟨significand * Nat.pow 2 exponent.toNat, 0⟩
  else ⟨significand * Nat.pow 5 (-exponent).toNat, exponent⟩

/--
The shortest decimal that reads back as `significand * 2 ^ exponent`. The walk
starts above the leading digit and needs at most seventeen digits; the exact
decimal stands in should it ever run out.
-/
def shortest (tie : Tie) (significand : Nat) (exponent : Int) : Decimal :=
  if significand = 0 then ⟨0, 0⟩
  else
    let top := (((significand.log2 : Int) + 1 + exponent) * 30103) / 100000 + 1
    ((Neighbourhood.of significand exponent).coarsest? tie 24 top).getD
      (exact significand exponent)

/-- The digits with the point in place and no exponent. -/
def positional (d : Decimal) : List Char :=
  if 0 ≤ d.exponent then d.digits ++ List.replicate d.exponent.toNat '0'
  else if 0 < d.point then
    d.digits.take d.point.toNat ++ '.' :: d.digits.drop d.point.toNat
  else '0' :: '.' :: (List.replicate (-d.point).toNat '0' ++ d.digits)

/-- Whether positional text shows no point. -/
def isWhole (d : Decimal) : Bool := 0 ≤ d.exponent

/-- One digit, the others behind a point, and a signed power of ten. -/
def scientific (d : Decimal) : List Char :=
  let power := d.point - 1
  let tail := d.digits.drop 1
  d.digits.take 1 ++ (if tail.isEmpty then [] else '.' :: tail) ++
    'e' :: (if power < 0 then '-' else '+') :: Nat.toDigits 10 power.natAbs

end Decimal

end Milling
