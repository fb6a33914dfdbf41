import Milling.Number.Text

/-!
# TOML numbers and moments

Whole numbers have 64 bits and a sign and may be written in four bases. Other
numbers are read to the nearest double. Digits may be grouped by underscores, each
with a digit on both sides. Moments in time are recognised, because a document may
hold them, but nothing is kept of them.
-/

namespace Milling.Toml

/-- A number or a moment. -/
inductive Literal where
  | integer (i : Int)
  | number (x : Float)
  | moment

namespace Literal

/-- Reads digits of which some test holds, grouped by underscores; the first has to be there. -/
def digits? (isDigit : Char → Bool) : List Char → Option (List Char × List Char)
  | [] => none
  | c :: rest =>
    if isDigit c then
      match rest with
      | '_' :: rest => do
        let (more, rest) ← digits? isDigit rest
        some (c :: more, rest)
      | d :: rest' =>
        if isDigit d then do
          let (more, rest) ← digits? isDigit (d :: rest')
          some (c :: more, rest)
        else some ([c], rest)
      | [] => some ([c], [])
    else none

/-- The number that digits stand for in some base. -/
def ofDigits (base : Nat) (digits : List Char) : Nat :=
  digits.foldl (fun n c =>
    n * base + if c.isDigit then c.toNat - '0'.toNat else c.toLower.toNat - 'a'.toNat + 10) 0

/-- Reads a sign, which need not be there; true for a minus. -/
def sign : List Char → Bool × List Char
  | '+' :: rest => (false, rest)
  | '-' :: rest => (true, rest)
  | rest => (false, rest)

/-- Reads the digits of a whole number in base ten. A leading zero stands alone. -/
def whole? : List Char → Option (List Char × List Char)
  | '0' :: rest => some (['0'], rest)
  | rest => digits? Char.isDigit rest

/-- An integer, if it fits into 64 bits. -/
def integer? (i : Int) : Option Literal :=
  if -0x8000000000000000 ≤ i ∧ i < 0x8000000000000000 then some (.integer i) else none

/-- A double written with a point or a power of ten. One that is too large is refused. -/
def number? (negative : Bool) (digits : List Char) (exponent : Int) : Option Literal :=
  let x := Double.ofDecimal negative (ofDigits 10 digits) exponent
  if x.isInf && !negative then none else some (.number x)

/-- Reads a power of ten behind its letter. -/
def exponent? (s : List Char) : Option (Int × List Char) := do
  let (negative, s) := sign s
  let (digits, rest) ← digits? Char.isDigit s
  let power : Int := ofDigits 10 digits
  return (if negative then -power else power, rest)

/-- Reads a whole number in a base other than ten. -/
def based? (base : Nat) (isDigit : Char → Bool) (s : List Char) : Option (Literal × List Char) := do
  let (digits, rest) ← digits? isDigit s
  return (← integer? (ofDigits base digits), rest)

/-- Whether a character is a digit in base sixteen. -/
def isHexDigit (c : Char) : Bool :=
  c.isDigit || ('a' ≤ c && c ≤ 'f') || ('A' ≤ c && c ≤ 'F')

/-- Reads a number in base ten. -/
def decimal? (s : List Char) : Option (Literal × List Char) := do
  let (negative, s) := sign s
  match s with
  | 'i' :: 'n' :: 'f' :: rest =>
    return (.number (Double.ofMagnitude negative Double.infinityBits), rest)
  | 'n' :: 'a' :: 'n' :: rest => return (.number Double.nan, rest)
  | _ =>
    let (digits, rest) ← whole? s
    match rest with
    | '.' :: rest =>
      let (places, rest) ← digits? Char.isDigit rest
      match rest with
      | 'e' :: rest | 'E' :: rest =>
        let (power, rest) ← exponent? rest
        return (← number? negative (digits ++ places) (power - places.length), rest)
      | rest => return (← number? negative (digits ++ places) (-places.length), rest)
    | 'e' :: rest | 'E' :: rest =>
      let (power, rest) ← exponent? rest
      return (← number? negative digits power, rest)
    | rest =>
      let n : Int := ofDigits 10 digits
      return (← integer? (if negative then -n else n), rest)

/-! ## Moments -/

/-- Reads a number of exactly `count` digits within bounds. -/
def counted? (count low high : Nat) (s : List Char) : Option (Nat × List Char) :=
  let digits := s.take count
  let n := ofDigits 10 digits
  if digits.length = count ∧ digits.all Char.isDigit ∧ low ≤ n ∧ n ≤ high then
    some (n, s.drop count)
  else none

/-- Reads one character. -/
def expect? (c : Char) : List Char → Option (List Char)
  | d :: rest => if d = c then some rest else none
  | [] => none

/-- The number of days of a month. -/
def daysIn (year month : Nat) : Nat :=
  if month = 2 then
    if year % 4 = 0 ∧ (year % 100 ≠ 0 ∨ year % 400 = 0) then 29 else 28
  else if month ∈ [4, 6, 9, 11] then 30
  else 31

/-- Goes past a date. -/
def date? (s : List Char) : Option (List Char) := do
  let (year, s) ← counted? 4 0 9999 s
  let s ← expect? '-' s
  let (month, s) ← counted? 2 1 12 s
  let s ← expect? '-' s
  let (_, s) ← counted? 2 1 (daysIn year month) s
  return s

/-- Goes past a fraction of a second, if there is one. -/
def skipFraction (s : List Char) : List Char :=
  match s with
  | '.' :: c :: rest => if c.isDigit then rest.dropWhile Char.isDigit else s
  | _ => s

/-- Goes past a time of day. -/
def time? (s : List Char) : Option (List Char) := do
  let (_, s) ← counted? 2 0 23 s
  let s ← expect? ':' s
  let (_, s) ← counted? 2 0 59 s
  let s ← expect? ':' s
  let (_, s) ← counted? 2 0 60 s
  return skipFraction s

/-- Goes past the distance from universal time, if there is one. -/
def offset? (s : List Char) : Option (List Char) :=
  match s with
  | 'Z' :: rest | 'z' :: rest => some rest
  | '+' :: rest | '-' :: rest => do
    let (_, s) ← counted? 2 0 23 rest
    let s ← expect? ':' s
    let (_, s) ← counted? 2 0 59 s
    return s
  | _ => some s

/-- Whether a text begins with as many digits and then a separator. -/
def beginsWith (count : Nat) (separator : Char) (s : List Char) : Bool :=
  (s.take count).length = count && (s.take count).all Char.isDigit &&
    (s.drop count).head? = some separator

/-- Goes past a date, and past a time if one follows. -/
def dateAndTime? (s : List Char) : Option (List Char) := do
  let s ← date? s
  match s with
  | delimiter :: rest =>
    if (delimiter = 'T' || delimiter = 't' || delimiter = ' ') && beginsWith 2 ':' rest then
      offset? (← time? rest)
    else some s
  | [] => some []

/-- Reads a number or a moment. -/
def read? (s : List Char) : Option (Literal × List Char) :=
  if beginsWith 4 '-' s then (dateAndTime? s).map (.moment, ·)
  else if beginsWith 2 ':' s then (time? s).map (.moment, ·)
  else match s with
    | '0' :: 'x' :: rest => based? 16 isHexDigit rest
    | '0' :: 'o' :: rest => based? 8 (fun c => '0' ≤ c && c ≤ '7') rest
    | '0' :: 'b' :: rest => based? 2 (fun c => c = '0' || c = '1') rest
    | s => decimal? s

end Literal

end Milling.Toml
