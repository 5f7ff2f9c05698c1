import SeededText.Decimal.Numeral
import SeededText.Decimal.Layout

/-!
# JSON values

A JSON value keeps its numbers as they were written.  What a number is worth is asked of the
numeral when a reader needs it: a natural number below `2 ^ 64`, a negative integer down to
`-2 ^ 63`, or a double.  `Numeral.quantity?` answers, and has no answer for a number beyond the
range of doubles.

The double of a numeral is the first digits, as many as stay below `2 ^ 64`, as one double, scaled
by one power of ten; digits beyond those only move the power.  This is two roundings where
`SeededText.Decimal.readFloat?` has one, and so the two may differ in the last place.
-/

namespace SeededText

/-! ## 1. Numbers -/

/-- A number as it is written: sign, digits, digits after the point, and the sign and digits of
the exponent. -/
structure Numeral where
  negative : Bool
  whole : List Char
  fraction : List Char
  exponent : Option (Bool × List Char)
deriving DecidableEq, Repr

/-- What a numeral is worth. -/
inductive Quantity where
  /-- a natural number below `2 ^ 64` -/
  | natural (n : Nat)
  /-- the negative of a positive number up to `2 ^ 63` -/
  | negative (n : Nat)
  | real (x : Float)
deriving DecidableEq, Repr

/-- Takes digits into a number as long as it stays below `2 ^ 64`; the digits left over. -/
def absorb (n : Nat) : List Char → Nat × List Char
  | [] => (n, [])
  | c :: cs =>
    let next := 10 * n + (Decimal.digit? c).getD 0
    if next < Decimal.wordCount then absorb next cs else (n, c :: cs)

/-- The double `x · 10 ^ power`, if it is finite.  Powers below the smallest in the table are
applied in steps. -/
def scaleByTen (x : Float) (power : Int) : Option Float :=
  if power ≥ 0 then
    if power ≤ 308 then
      let y := x * Float.ofScientific 1 false power.toNat
      if y.isInf then none else some y
    else if x == 0 then some x
    else none
  else if power ≥ -308 then
    some (x / Float.ofScientific 1 false power.natAbs)
  else if x == 0 then
    some x
  else
    scaleByTen (x / Float.ofScientific 1 false 308) (power + 308)
termination_by power.natAbs

/-- A natural number below `2 ^ 64` as a double. -/
def doubleOfNatural (n : Nat) : Float :=
  (UInt64.ofNat n).toFloat

/-- The magnitude of a numeral as a double, if it is finite. -/
def Numeral.magnitude? (n : Numeral) : Option Float :=
  let (first, restWhole) := absorb 0 n.whole
  let (digits, restFraction) := absorb first n.fraction
  let power : Int := restWhole.length - (n.fraction.length - restFraction.length : Nat)
  match n.exponent with
  | none => scaleByTen (doubleOfNatural digits) power
  | some (negative, exponent) =>
    let exponent := Decimal.foldDigits 0 exponent
    if exponent ≥ 0x80000000 then
      if digits ≠ 0 && !negative then none else some 0
    else
      scaleByTen (doubleOfNatural digits) (if negative then power - exponent else power + exponent)

/-- What the numeral is worth; nothing if it is beyond the range of doubles. -/
def Numeral.quantity? (n : Numeral) : Option Quantity :=
  let value := Decimal.foldDigits 0 n.whole
  if n.fraction.isEmpty && n.exponent.isNone && !n.negative && value < Decimal.wordCount then
    some (.natural value)
  else if n.fraction.isEmpty && n.exponent.isNone && n.negative && 0 < value
      && value ≤ Decimal.halfCount then
    some (.negative value)
  else
    n.magnitude?.map fun x => .real (if n.negative then -x else x)

def Quantity.toFloat : Quantity → Float
  | .natural n => doubleOfNatural n
  | .negative n => -doubleOfNatural n
  | .real x => x

def Quantity.display : Quantity → String
  | .natural n => Decimal.naturalText n
  | .negative n => "-" ++ Decimal.naturalText n
  | .real x => Decimal.compact x

def Numeral.ofNat (n : Nat) : Numeral :=
  ⟨false, Decimal.digitsOf n, [], none⟩

/-! ## 2. Values -/

/-- A JSON value; the fields of an object in the order written, repetitions included. -/
inductive Json where
  | null
  | bool (value : Bool)
  | number (numeral : Numeral)
  | string (text : String)
  | array (items : List Json)
  | object (fields : List (String × Json))
  /-- a value that is written well and that no reader takes: a string with half of a surrogate
  pair, an object with such a key, or an array or object that stands too deep -/
  | unreadable
deriving Repr

def Json.ofText? : Option String → Json
  | none => .null
  | some text => .string text

end SeededText
