/-!
# Picking by weight

The weights are laid end to end, and a draw from 0 up to 1, spread over their total, falls on one
of them.  All sums are sums of doubles from left to right.
-/

namespace SeededText.Draw

/-- The first index whose running total exceeds the target, counting from `index` and with
`total` summed before it. -/
def firstAbove (target total : Float) (index : Nat) : List Float → Option Nat
  | [] => none
  | weight :: weights =>
    if target < total + weight then some index
    else firstAbove target (total + weight) (index + 1) weights

/-- The index that a draw picks: the first whose running total exceeds the draw's share of the
total, and the last if rounding leaves none.  Without weights, or when their total is not above
zero, there is none. -/
def weightedIndex (weights : List Float) (draw : Float) : Option Nat :=
  let total := weights.foldl (· + ·) 0
  if weights.isEmpty || !(0 < total) then
    none
  else
    some ((firstAbove (draw * total) 0 0 weights).getD (weights.length - 1))

end SeededText.Draw
