import Milling.Number.Rounding

/-!
# Doubles, read and written exactly

A finite double is a whole significand times a power of two. `view` reads a
double into that form, `nearest` goes the other way: it takes an exact quotient
and rounds it to the closest double. Between the two there is only arithmetic on
whole numbers, so what a printed number denotes can be reasoned about without
knowing how the processor adds.
-/

namespace Milling.Double

/--
What the bits of a double stand for. A finite one has the value
`significand * 2 ^ exponent` with the given sign; a zero keeps its sign.
-/
inductive View where
  | nan
  | infinite (negative : Bool)
  | finite (negative : Bool) (significand : Nat) (exponent : Int)
deriving DecidableEq, Repr

/-- The bits of positive infinity, which also bound those of every finite magnitude. -/
def infinityBits : Nat := 2047 * Nat.pow 2 52

/-- Reads the sign, the exponent field and the fraction of a double. -/
def view (x : Float) : View :=
  let bits : Nat := x.toBits.toNat
  let negative : Bool := Nat.pow 2 63 ≤ bits
  let field : Nat := bits / Nat.pow 2 52 % Nat.pow 2 11
  let fraction : Nat := bits % Nat.pow 2 52
  if field = 2047 then
    if fraction = 0 then .infinite negative else .nan
  else if field = 0 then .finite negative fraction (-1074)
  else .finite negative (Nat.pow 2 52 + fraction) (field - 1075)

/-- The double with the given sign whose magnitude has the given bits. -/
def ofMagnitude (negative : Bool) (bits : Nat) : Float :=
  Float.ofBits (UInt64.ofNat (if negative then Nat.pow 2 63 + bits else bits))

/--
The exponent of the last place that a double near `num / den` has: 52 binary
places below the leading one, and never below the smallest exponent there is.
-/
def lastPlace (num den : Nat) : Int :=
  let guess : Int := (num.log2 : Int) - den.log2
  let reached : Bool :=
    if 0 ≤ guess then den * Nat.pow 2 guess.toNat ≤ num
    else den ≤ num * Nat.pow 2 (-guess).toNat
  max ((if reached then guess else guess - 1) - 52) (-1074)

/--
The bits of the magnitude nearest to `num / den`. The exponent field and the
fraction are adjacent, so a significand that rounds up to the next power of two
carries into the field by itself, and a magnitude beyond the largest double ends
at infinity.
-/
def nearestBits (num den : Nat) : Nat :=
  if num = 0 then 0
  else
    let place := lastPlace num den
    let significand :=
      if 0 ≤ place then roundHalfEven num (den * Nat.pow 2 place.toNat)
      else roundHalfEven (num * Nat.pow 2 (-place).toNat) den
    min ((place + 1074).toNat * Nat.pow 2 52 + significand) infinityBits

/-- The double nearest to `num / den`, with the given sign; a tie goes to the even one. -/
def nearest (negative : Bool) (num den : Nat) : Float :=
  ofMagnitude negative (nearestBits num den)

/-- The double nearest to a natural number. -/
def ofNat (n : Nat) : Float := nearest false n 1

/-- The double nearest to an integer. -/
def ofInt (i : Int) : Float := nearest (i < 0) i.natAbs 1

/--
The double nearest to `coefficient * 10 ^ exponent`. Decimals far outside the
range of doubles are settled by their size alone, before any power of ten is
computed.
-/
def ofDecimal (negative : Bool) (coefficient : Nat) (exponent : Int) : Float :=
  let size : Int := (Nat.toDigits 10 coefficient).length + exponent
  if coefficient = 0 ∨ size < -400 then ofMagnitude negative 0
  else if 400 < size then ofMagnitude negative infinityBits
  else if 0 ≤ exponent then nearest negative (coefficient * Nat.pow 10 exponent.toNat) 1
  else nearest negative coefficient (Nat.pow 10 (-exponent).toNat)

/-- Positive infinity. -/
def infinity : Float := ofMagnitude false infinityBits

/-- Not a number. -/
def nan : Float := ofMagnitude false (infinityBits + Nat.pow 2 51)

end Milling.Double
