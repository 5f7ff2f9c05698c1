/-!
# Decimal numerals

Two readings of decimal text.  `readFloat?` reads a whole text as a double: an optional sign, then
digits with an optional point and an optional exponent, or one of the words for infinity and for
the value that is no number.  `readNatural?` reads a whole text of digits as a natural number.

A numeral is first taken apart into a natural number and a power of ten; only `Scaled.toFloat`
rounds, once, to the nearest double.
-/

namespace SeededText.Decimal

/-! ## 1. Digits -/

/-- The value of a decimal digit. -/
def digit? (c : Char) : Option Nat :=
  if '0' ≤ c ∧ c ≤ '9' then some (c.toNat - '0'.toNat) else none

def isDigit (c : Char) : Bool :=
  (digit? c).isSome

/-- The number that a run of digits writes, continuing from `value`. -/
def foldDigits (value : Nat) (cs : List Char) : Nat :=
  cs.foldl (fun n c => 10 * n + (digit? c).getD 0) value

/-- A non-empty text of digits as a natural number. -/
def readNatural? (cs : List Char) : Option Nat :=
  if !cs.isEmpty && cs.all isDigit then some (foldDigits 0 cs) else none

/-- How many numbers a word of 64 bits can hold. -/
def wordCount : Nat := 0x10000000000000000

/-- How many of them a signed word counts as negative. -/
def halfCount : Nat := 0x8000000000000000

/-! ## 2. Scaled numbers -/

/-- The number `digits · 10 ^ exponent`. -/
structure Scaled where
  digits : Nat
  exponent : Int
deriving DecidableEq, Repr

/-- The double nearest to a scaled number, infinity beyond the largest.  The two early answers
keep the powers of ten small: a number of `k` digits lies between `10 ^ (k - 1)` and `10 ^ k`, and
every number below `10 ^ (-330)` rounds to zero. -/
def Scaled.toFloat (n : Scaled) : Float :=
  if n.digits = 0 then
    0
  else
    let length : Int := (Nat.toDigits 10 n.digits).length
    if length + n.exponent > 320 then
      1 / 0
    else if length + n.exponent < -330 then
      0
    else
      Float.ofScientific n.digits (n.exponent < 0) n.exponent.natAbs

/-- A signed exponent after the letter `e`; at least one digit. -/
def readExponent? (cs : List Char) : Option Int :=
  match cs with
  | '-' :: rest => (readNatural? rest).map fun n => -(n : Int)
  | '+' :: rest => (readNatural? rest).map fun n => (n : Int)
  | _ => (readNatural? cs).map fun n => (n : Int)

/-- Digits with an optional point and an optional exponent, the whole text. -/
def readScaled? (cs : List Char) : Option Scaled :=
  let whole := cs.takeWhile isDigit
  let afterWhole := cs.dropWhile isDigit
  let (fraction, rest) :=
    match afterWhole with
    | '.' :: more => (more.takeWhile isDigit, more.dropWhile isDigit)
    | _ => ([], afterWhole)
  if whole.isEmpty && fraction.isEmpty then
    none
  else
    let exponent? :=
      match rest with
      | [] => some 0
      | 'e' :: more => readExponent? more
      | 'E' :: more => readExponent? more
      | _ => none
    exponent?.map fun exponent =>
      ⟨foldDigits (foldDigits 0 whole) fraction, exponent - fraction.length⟩

/-! ## 3. Doubles -/

/-- A numeral without its sign. -/
def readMagnitude? (cs : List Char) : Option Float :=
  match readScaled? cs with
  | some n => some n.toFloat
  | none =>
    let word := cs.map Char.toLower
    if word = ['i', 'n', 'f'] || word = ['i', 'n', 'f', 'i', 'n', 'i', 't', 'y'] then
      some (1 / 0)
    else if word = ['n', 'a', 'n'] then
      some (0 / 0)
    else
      none

/-- A whole text as a double. -/
def readFloat? (cs : List Char) : Option Float :=
  match cs with
  | '-' :: rest => (readMagnitude? rest).map fun x => -x
  | '+' :: rest => readMagnitude? rest
  | _ => readMagnitude? cs

/-- A whole text as a double that is neither infinite nor the value that is no number. -/
def readFinite? (cs : List Char) : Option Float :=
  (readFloat? cs).filter fun x => x.isFinite

end SeededText.Decimal
