/-!
# The shortest decimal that reads back

`shortest` finds, for a positive finite double, the decimal number `digits · 10 ^ exponent` with
the fewest digits that reads back as the same double, and among those the nearest to it.

A double is `m · 2 ^ q`.  The reals that round to it form an interval around it whose ends belong
to it exactly when `m` is even.  On each decimal grid, from coarse to fine, the two neighbours of
the double are tested for lying in the interval; the first grid with a hit has the fewest digits,
because a grid point in the interval forces one of the two neighbours into it.  All comparisons
are between natural numbers, with the powers of two and ten moved to the side where they are
whole.  Two hits at the same distance are decided by a `Tie`, which is the writer's choice.
-/

namespace SeededText.Decimal

/-- Which of two equally near decimals is taken. -/
inductive Tie where
  /-- the one further from zero -/
  | up
  /-- the one whose last digit is even -/
  | even
deriving DecidableEq, Repr

/-! ## 1. The parts of a double -/

/-- A finite double without its sign: `mantissa · 2 ^ exponent`, and whether the double below it is
twice as near as the one above, which is so at powers of two. -/
structure Binary where
  mantissa : Nat
  exponent : Int
  narrowBelow : Bool
deriving DecidableEq, Repr

def isNegative (x : Float) : Bool :=
  x.toBits ≥ 0x8000000000000000

/-- The parts of a finite double, from its bits. -/
def Binary.ofFloat (x : Float) : Binary :=
  let bits := x.toBits.toNat
  let fraction : Nat := bits % 0x10000000000000
  let power : Nat := bits / 0x10000000000000 % 0x800
  if power = 0 then
    ⟨fraction, -1074, false⟩
  else
    ⟨fraction + 0x10000000000000, (power : Int) - 1075, fraction = 0 && power > 1⟩

/-! ## 2. One decimal grid -/

/-- The double `b` and its interval on the grid of multiples of `10 ^ exponent`: everything is
counted in units of a quarter of the double's last binary place, scaled so that one step of the
grid is `step` and one quarter unit is `quarter`. -/
structure Grid where
  step : Nat
  quarter : Nat

/-- The grid of multiples of `10 ^ exponent` for the double `b`. -/
def Grid.at (b : Binary) (exponent : Int) : Grid :=
  let unit := b.exponent - 2
  ⟨Nat.pow 10 exponent.toNat * Nat.pow 2 (-unit).toNat,
   Nat.pow 2 unit.toNat * Nat.pow 10 (-exponent).toNat⟩

/-- The grid point `n` rounds to the double. -/
def Grid.reads (g : Grid) (b : Binary) (n : Nat) : Bool :=
  let low := (4 * b.mantissa - if b.narrowBelow then 1 else 2) * g.quarter
  let high := (4 * b.mantissa + 2) * g.quarter
  let point := n * g.step
  if b.mantissa % 2 = 0 then
    low ≤ point && point ≤ high
  else
    low < point && point < high

/-- The nearest of the double's two neighbours on the grid that rounds to it, if one does. -/
def Grid.hit? (g : Grid) (b : Binary) (tie : Tie) : Option Nat :=
  let value := 4 * b.mantissa * g.quarter
  let below := value / g.step
  let above := below + 1
  let downwards := value - below * g.step
  let upwards := above * g.step - value
  match decide (0 < below) && g.reads b below, g.reads b above with
  | true, true =>
    if downwards < upwards then some below
    else if upwards < downwards then some above
    else
      match tie with
      | .up => some above
      | .even => if below % 2 = 0 then some below else some above
  | true, false => some below
  | false, true => some above
  | false, false => none

/-! ## 3. The search -/

/-- The decimal number `digits · 10 ^ exponent`. -/
structure Digits where
  digits : Nat
  exponent : Int
deriving DecidableEq, Repr

/-- A power of ten at or above the double: `30103 / 100000` is just above the logarithm of two to
the base ten. -/
def Binary.ceiling (b : Binary) : Int :=
  (b.exponent + (Nat.log2 b.mantissa + 1)) * 30103 / 100000 + 1

/-- The shortest decimal that reads back as a positive finite double.  Seventeen digits always
suffice, so the twenty-five grids below the ceiling hold a hit. -/
def shortest (tie : Tie) (x : Float) : Digits :=
  let b := Binary.ofFloat x
  let hits := (List.range 25).findSome? fun (k : Nat) =>
    let exponent := b.ceiling - (k : Int)
    ((Grid.at b exponent).hit? b tie).map fun n => (⟨n, exponent⟩ : Digits)
  hits.getD ⟨0, 0⟩

end SeededText.Decimal
