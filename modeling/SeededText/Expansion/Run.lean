import SeededText.Limits
import SeededText.Expansion.Basic

/-!
# Runs

A run makes a number of variations of one template, each the expansion of the template under the
run's seed and the variation's index, and collects their problems.  Variations do not depend on
each other, so the one with a given index can also be made alone.
-/

namespace SeededText

/-- Everything a variation depends on, its index aside. -/
structure Request where
  template : Template
  catalog : Catalog
  context : Context

/-- One variation: its text and the problems met, in order. -/
structure Variation where
  text : String
  problems : List Problem
deriving DecidableEq, Repr

/-- A problem and the variation it was met in. -/
structure Diagnostic where
  variation : Nat
  problem : Problem
deriving DecidableEq, Repr

/-- A run: the seed it used, whether the caller gave it, the texts and the problems in order. -/
structure Run where
  seed : String
  seeded : Bool
  variations : List String
  diagnostics : List Diagnostic
deriving DecidableEq, Repr

inductive RequestFault where
  | zeroCount
  | tooManyVariations (requested limit : Nat)
deriving DecidableEq, Repr

def RequestFault.message : RequestFault → String
  | .zeroCount => "variation count must be at least 1"
  | .tooManyVariations requested limit =>
    "requested " ++ Decimal.naturalText requested ++ " variations, but the limit is "
      ++ Decimal.naturalText limit

def Request.trace (r : Request) (limits : Limits) (seed : String) (index : Nat) : Trace :=
  expandTemplate
    ⟨r.catalog, r.context, limits.maxRecursionDepth, Draw.variationSeed seed index⟩
    limits.maxExpansions r.template

def Request.variation (r : Request) (limits : Limits) (seed : String) (index : Nat) : Variation :=
  let trace := r.trace limits seed index
  ⟨trace.text, trace.problems⟩

/-- Variations with the indices from 0 on; without a seed of the caller's the `fresh` one is
used. -/
def Request.run (r : Request) (limits : Limits) (fresh : String) (seed : Option String)
    (count : Nat) : Except RequestFault Run :=
  if count = 0 then
    .error .zeroCount
  else if count > limits.maxVariations then
    .error (.tooManyVariations count limits.maxVariations)
  else
    let used := seed.getD fresh
    let made := (List.range count).map fun index => (index, r.variation limits used index)
    .ok
      { seed := used
        seeded := seed.isSome
        variations := made.map fun (_, v) => v.text
        diagnostics := made.flatMap fun (index, v) => v.problems.map fun p => ⟨index, p⟩ }

def Run.isClean (run : Run) : Bool :=
  run.diagnostics.isEmpty

def Run.problemsOf (run : Run) (index : Nat) : List Problem :=
  (run.diagnostics.filter fun d => d.variation = index).map Diagnostic.problem

end SeededText
