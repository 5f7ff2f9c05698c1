/-!
# Limits of an expansion

Three numbers bound what a run may do: how deep values are opened inside each other, how many
variations one run may make, and how many values one variation may open.  A run must be allowed
at least one variation.
-/

namespace SeededText

structure Limits where
  maxRecursionDepth : Nat
  maxVariations : Nat
  maxExpansions : Nat
deriving DecidableEq, Repr

/-- The limits where nothing else is said. -/
def Limits.default : Limits :=
  ⟨5, 100, 1024⟩

inductive LimitsFault where
  | noVariations
deriving DecidableEq, Repr

def LimitsFault.message : LimitsFault → String
  | .noVariations => "invalid engine config: max_variations must be at least 1"

/-- The limits, if they allow a variation. -/
def Limits.check (limits : Limits) : Except LimitsFault Limits :=
  if limits.maxVariations = 0 then .error .noVariations else .ok limits

/-- Limits that are set one by one. -/
structure LimitsOverride where
  maxRecursionDepth : Option Nat
  maxVariations : Option Nat
  maxExpansions : Option Nat
deriving DecidableEq, Repr

def LimitsOverride.none : LimitsOverride :=
  ⟨.none, .none, .none⟩

/-- The limits with those replaced that are set. -/
def LimitsOverride.applyTo (o : LimitsOverride) (limits : Limits) : Limits :=
  ⟨o.maxRecursionDepth.getD limits.maxRecursionDepth,
   o.maxVariations.getD limits.maxVariations,
   o.maxExpansions.getD limits.maxExpansions⟩

/-- The limits that a run gets: loaded limits take the place of given ones, single settings come
last, and the result is checked. -/
def Limits.assemble (given loaded : Option Limits) (o : LimitsOverride) :
    Except LimitsFault Limits :=
  (o.applyTo ((loaded.or given).getD .default)).check

end SeededText
