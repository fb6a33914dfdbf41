/-!
# Rounding a quotient

Every number this library prints or reads is rounded once, from an exact
quotient of whole numbers, to the nearest one. What differs is where a half goes:
to the even neighbour nearly everywhere, and up where messages show the fewest
digits.
-/

namespace Milling

/-- Which of two equally near neighbours a number is rounded to. -/
inductive Tie where
  /-- The greater one. -/
  | up
  /-- The even one. -/
  | even
deriving DecidableEq, Repr

/-- The whole number nearest to `num / den`; a half goes as `tie` says. -/
def roundNearest (tie : Tie) (num den : Nat) : Nat :=
  let quotient := num / den
  let twice := 2 * (num % den)
  if twice < den then quotient
  else if den < twice then quotient + 1
  else match tie with
    | .up => quotient + 1
    | .even => quotient + quotient % 2

/-- The whole number nearest to `num / den`; of two equally near, the even one. -/
def roundHalfEven (num den : Nat) : Nat := roundNearest .even num den

end Milling
