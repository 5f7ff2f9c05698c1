import SeededText.Decimal.Layout

/-!
# The seed material of each draw

A run has a seed, every variation of it an index, and inside a variation every draw a slot, a
variable's name or an option group's number, and an occurrence: how often that slot was used
before.  A `Key` holds the last two, and `Key.material` writes all of it as the text that is hashed.
-/

namespace SeededText.Draw

inductive Slot where
  | variable (name : String)
  | optionGroup (index : Nat)
deriving DecidableEq, Repr

/-- One use of a slot in a variation. -/
structure Key where
  slot : Slot
  occurrence : Nat
deriving DecidableEq, Repr

/-- The seed material of a variation. -/
def variationSeed (seed : String) (variation : Nat) : String :=
  seed ++ "-variation-" ++ Decimal.naturalText variation

/-- The part of the seed material that names the slot. -/
def Slot.label : Slot → String
  | .variable name => name
  | .optionGroup index => "option-" ++ Decimal.naturalText index

/-- The seed material of one draw, in the variation with the given material. -/
def Key.material (variationSeed : String) (key : Key) : String :=
  variationSeed ++ "-" ++ key.slot.label ++ "-" ++ Decimal.naturalText key.occurrence

end SeededText.Draw
