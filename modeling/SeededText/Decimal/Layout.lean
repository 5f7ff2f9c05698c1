import SeededText.Decimal.Shortest

/-!
# How numbers are written

Three layouts of a double, all of the shortest digits that read back.

* `plain`: positional, never an exponent, no point where there is no fraction (`5`, `-0`, `0.25`).
* `pointed`: like `plain`, with `.0` where there is no fraction (`5.0`).
* `compact`: positional from `10 ^ (-5)` up to below `10 ^ 16`, with `.0` where there is no
  fraction, and otherwise one digit, a point, the rest and an exponent with its sign (`1e+16`,
  `1.5e-7`).
-/

namespace SeededText.Decimal

def digitsOf (n : Nat) : List Char :=
  Nat.toDigits 10 n

def naturalText (n : Nat) : String :=
  String.ofList (digitsOf n)

def zeros (n : Int) : List Char :=
  List.replicate n.toNat '0'

/-- Positional digits; `fraction` is written where the number has no fraction of its own. -/
def Digits.positional (d : Digits) (fraction : List Char) : List Char :=
  let ds := digitsOf d.digits
  let point : Int := ds.length + d.exponent
  if d.exponent ≥ 0 then
    ds ++ zeros d.exponent ++ fraction
  else if point > 0 then
    ds.take point.toNat ++ '.' :: ds.drop point.toNat
  else
    '0' :: '.' :: zeros (-point) ++ ds

/-- One digit, the others after a point if there are others, and the exponent with its sign. -/
def Digits.scientific (d : Digits) : List Char :=
  let ds := digitsOf d.digits
  let power : Int := ds.length + d.exponent - 1
  let others := ds.drop 1
  ds.take 1 ++ (if others.isEmpty then [] else '.' :: others)
    ++ 'e' :: (if power < 0 then '-' else '+') :: digitsOf power.natAbs

/-- A double by a layout of its digits, with the sign, zero and the values that are not finite. -/
def written (x : Float) (zero : String) (layout : Float → List Char) : String :=
  if x.isNaN then
    "NaN"
  else
    let sign := if isNegative x then "-" else ""
    let magnitude := x.abs
    if x.isInf then sign ++ "inf"
    else if magnitude == 0 then sign ++ zero
    else sign ++ String.ofList (layout magnitude)

/-- The positional layout without a needless point. -/
def plain (x : Float) : String :=
  written x "0" fun y => (shortest .up y).positional []

/-- The positional layout that always has a point. -/
def pointed (x : Float) : String :=
  written x "0.0" fun y => (shortest .up y).positional ['.', '0']

/-- The layout that turns to an exponent for very large and very small numbers. -/
def compact (x : Float) : String :=
  written x "0.0" fun y =>
    let d := shortest .even y
    let point : Int := (digitsOf d.digits).length + d.exponent
    if -5 < point && point ≤ 16 then d.positional ['.', '0'] else d.scientific

end SeededText.Decimal
