import Milling.Number.Decimal

/-!
# How numbers are written

Four ways, each a decision of the place that prints: messages and answers show
the shortest digits in full, coordinates show a fixed number of places, and the
two configuration formats have their own forms.
-/

namespace Milling.Double

/-- A minus sign in front of what is negative. -/
def signed (negative : Bool) (text : List Char) : List Char :=
  if negative then '-' :: text else text

/--
Writes a double by the given rule for finite magnitudes. The texts for what is
not a number are the same wherever they can appear.
-/
def write (finite : Nat → Int → List Char) (x : Float) : String :=
  String.ofList <| match view x with
    | .nan => ['N', 'a', 'N']
    | .infinite negative => signed negative ['i', 'n', 'f']
    | .finite negative significand exponent => signed negative (finite significand exponent)

/-- The fewest digits that read back, never with an exponent: `0.1`, `100`, `-0`. -/
def plain (x : Float) : String :=
  write (fun m e => (Decimal.shortest .up m e).positional) x

/-- Like `plain`, but a whole number shows a zero behind the point: `100.0`. -/
def pointed (x : Float) : String :=
  write (fun m e =>
    let d := Decimal.shortest .up m e
    d.positional ++ if d.isWhole then ['.', '0'] else []) x

/--
Like `pointed` for magnitudes from `0.00001` up to sixteen digits before the
point, and with a power of ten outside: `1e+16`, `2.5e-6`. Of two decimals that
are equally short and equally near, this one takes the even one.
-/
def compact (x : Float) : String :=
  write (fun m e =>
    let d := Decimal.shortest .even m e
    if d.coefficient = 0 ∨ (-5 < d.point ∧ d.point ≤ 16) then
      d.positional ++ if d.isWhole then ['.', '0'] else []
    else d.scientific) x

/-- A whole number of thousandths, hundredths, ... with that many places shown. -/
def placed (places scaled : Nat) : List Char :=
  let fraction := Nat.toDigits 10 (scaled % Nat.pow 10 places)
  Nat.toDigits 10 (scaled / Nat.pow 10 places) ++
    if places = 0 then []
    else '.' :: (List.replicate (places - fraction.length) '0' ++ fraction)

/-- A magnitude counted in units of the last of `places` decimal places. -/
def scaleBy (places significand : Nat) (exponent : Int) : Nat :=
  roundHalfEven (significand * Nat.pow 10 places * Nat.pow 2 exponent.toNat)
    (Nat.pow 2 (-exponent).toNat)

/-- A fixed number of places, rounded once from the exact value. -/
def fixed (places : Nat) (x : Float) : String :=
  write (fun m e => placed places (scaleBy places m e)) x

/-- Whether a double is a finite whole number. -/
def isWhole (x : Float) : Bool :=
  match view x with
  | .finite _ significand exponent => significand % Nat.pow 2 (-exponent).toNat = 0
  | _ => false

end Milling.Double
