import Milling.Json.Fault

/-!
# Reading JSON numbers

The digits of a number are collected into a significand as long as it fits into
64 bits, and a power of ten makes up for the rest. The significand is then turned
into a double and multiplied or divided by the power, in double arithmetic. That
is fast, and it is not always the double nearest to what was written: there are
two roundings, one of the power and one of the product.
-/

namespace Milling.Json

/-- A number as a document shows it: whole numbers that fit into 64 bits stay whole. -/
inductive Numeral where
  | integer (i : Int)
  | number (x : Float)
deriving DecidableEq

namespace Numeral

/-- The number as a double. -/
def toFloat : Numeral → Float
  | .integer i => Double.ofInt i
  | .number x => x

/-- The number as a message shows it. -/
def found : Numeral → Found
  | .integer i => .integer i
  | .number x => .number x

/-- The value of a decimal digit. -/
def digit (c : Char) : Nat := c.toNat - '0'.toNat

/-- A significand with what is known about the digits it was collected from. -/
structure Digits where
  significand : Nat
  /-- Digits that are part of the significand. -/
  taken : Nat
  /-- Digits that came too late to fit. -/
  dropped : Nat
  rest : List Char

/-- Goes past digits and counts them. -/
def countDigits : List Char → Nat × List Char
  | c :: rest =>
    if c.isDigit then
      let (n, rest) := countDigits rest
      (n + 1, rest)
    else (0, c :: rest)
  | [] => (0, [])

/-- Collects digits after those of a significand, until one does not fit. -/
def collect (significand : Nat) : List Char → Digits
  | c :: rest =>
    if c.isDigit then
      let next := significand * 10 + digit c
      if next < Nat.pow 2 64 then
        let more := collect next rest
        { more with taken := more.taken + 1 }
      else
        let (dropped, rest) := countDigits rest
        { significand, taken := 0, dropped := dropped + 1, rest }
    else { significand, taken := 0, dropped := 0, rest := c :: rest }
  | [] => { significand, taken := 0, dropped := 0, rest := [] }

/-- The largest power of ten that is a double. -/
def topPower : Nat := 308

/--
A significand times a power of ten, in double arithmetic. A power too small to be
a double is taken in steps; after `steps` of them nothing is left of any
significand. Fails when the product is too large.
-/
def scale : (steps : Nat) → Float → Int → Option Float
  | steps, x, power =>
    if power.natAbs ≤ topPower then
      if 0 ≤ power then
        let product := x * Double.ofNat (Nat.pow 10 power.natAbs)
        if product.isInf then none else some product
      else some (x / Double.ofNat (Nat.pow 10 power.natAbs))
    else if x == Double.ofNat 0 then some x
    else if 0 < power then none
    else match steps with
      | 0 => some x
      | steps + 1 => scale steps (x / Double.ofNat (Nat.pow 10 topPower)) (power + topPower)

/-- A number with a point or a power of ten. -/
def ofParts (negative : Bool) (significand : Nat) (power : Int) (rest : List Char) :
    Except Fault (Numeral × List Char) :=
  match scale 4 (Double.ofNat significand) power with
  | some x => .ok (.number (if negative then -x else x), rest)
  | none => .error (.breach .numberTooLarge)

/-- A whole number; what does not fit into 64 bits becomes a double, and so does a negative zero. -/
def ofWhole (negative : Bool) (significand : Nat) : Numeral :=
  if !negative then .integer significand
  else if significand = 0 ∨ Nat.pow 2 63 < significand then .number (-Double.ofNat significand)
  else .integer (-significand)

/-- The digits of a written power of ten, after its sign. -/
def readPower (rest : List Char) : Except Fault (Nat × List Char) :=
  match rest with
  | [] => .error (.stopped .value)
  | c :: _ =>
    if c.isDigit then
      .ok ((rest.takeWhile Char.isDigit).foldl (fun n c => n * 10 + digit c) 0,
        rest.dropWhile Char.isDigit)
    else .error (.breach .badNumber)

/-- What follows the letter that announces a power of ten. -/
def readExponent (negative : Bool) (significand : Nat) (power : Int) (rest : List Char) :
    Except Fault (Numeral × List Char) := do
  let (below, rest) := match rest with
    | '+' :: rest => (false, rest)
    | '-' :: rest => (true, rest)
    | rest => (false, rest)
  let (exponent, rest) ← readPower rest
  ofParts negative significand (if below then power - exponent else power + exponent) rest

/-- What follows the point. -/
def readFraction (negative : Bool) (significand : Nat) (power : Int) (rest : List Char) :
    Except Fault (Numeral × List Char) :=
  let digits := collect significand rest
  if digits.taken = 0 ∧ digits.dropped = 0 then
    match rest with
    | [] => .error (.stopped .value)
    | _ => .error (.breach .badNumber)
  else
    let power := power - digits.taken
    match digits.rest with
    | 'e' :: rest | 'E' :: rest => readExponent negative digits.significand power rest
    | rest => ofParts negative digits.significand power rest

/-- What follows the digits before a point. -/
def readTail (negative : Bool) (digits : Digits) : Except Fault (Numeral × List Char) :=
  match digits.rest with
  | '.' :: rest => readFraction negative digits.significand digits.dropped rest
  | 'e' :: rest | 'E' :: rest => readExponent negative digits.significand digits.dropped rest
  | rest =>
    if digits.dropped = 0 then .ok (ofWhole negative digits.significand, rest)
    else ofParts negative digits.significand digits.dropped rest

/-- Reads a number whose sign has been read. A leading zero stands alone. -/
def read (negative : Bool) : List Char → Except Fault (Numeral × List Char)
  | [] => .error (.stopped .value)
  | '0' :: rest =>
    match rest with
    | c :: _ =>
      if c.isDigit then .error (.breach .badNumber)
      else readTail negative { significand := 0, taken := 1, dropped := 0, rest }
    | [] => readTail negative { significand := 0, taken := 1, dropped := 0, rest }
  | c :: rest =>
    if c.isDigit then readTail negative (collect 0 (c :: rest))
    else .error (.breach .badNumber)

end Numeral

end Milling.Json
