import SeededText.Catalog.Basic
import SeededText.Draw.Hash
import SeededText.Draw.Weighted
import SeededText.Expansion.Problem

/-!
# Choosing a value for a variable

The candidates of a variable, and likewise the options of a group, are admitted when they have no
condition or one that holds.  A condition that cannot be read admits nothing and is recorded.
Among the admitted candidates a draw picks one by weight.
-/

namespace SeededText

/-! ## 1. Admission -/

/-- The admitted among some things, in their order, and the conditions that could not be read, in
theirs. -/
structure Admission (α : Type) where
  admitted : List α
  malformed : List MalformedCondition

/-- Admits what has no condition or one that holds. -/
def Admission.of {α : Type} (context : Context) (conditionOf : α → Option String) :
    List α → Admission α
  | [] => ⟨[], []⟩
  | x :: xs =>
    let rest := Admission.of context conditionOf xs
    match conditionOf x with
    | none => { rest with admitted := x :: rest.admitted }
    | some source =>
      match decideCondition source context with
      | .ok true => { rest with admitted := x :: rest.admitted }
      | .ok false => rest
      | .error e => { rest with malformed := e :: rest.malformed }

/-- The conditions that could not be read, as problems. -/
def Admission.problems {α : Type} (a : Admission α) : List Problem :=
  a.malformed.map .malformedCondition

/-! ## 2. Candidates -/

/-- The candidates of an entry that are admitted in a context. -/
def Entry.admission (e : Entry) (context : Context) : Admission Candidate :=
  Admission.of context Candidate.condition e.values

/-- What asking for a variable's candidates gives: the problems of its conditions, and then the
admitted candidates, at least one, or why there is none. -/
structure Eligibility where
  malformed : List MalformedCondition
  outcome : Except Problem (List Candidate)

/-- The candidates of a variable that are admitted in a context. -/
def Catalog.eligible (catalog : Catalog) (context : Context) (name : String) : Eligibility :=
  match catalog.get? name with
  | none => ⟨[], .error (.unknownVariable name)⟩
  | some entry =>
    let a := entry.admission context
    ⟨a.malformed, if a.admitted.isEmpty then .error (.noEligibleValue name) else .ok a.admitted⟩

/-! ## 3. Picking -/

/-- The text that a draw picks among candidates. -/
def pickText? (candidates : List Candidate) (draw : Float) : Option String := do
  let index ← Draw.weightedIndex (candidates.map Candidate.weight) draw
  let candidate ← candidates[index]?
  return candidate.text

/-- The text that some seed material picks for a variable, or why there is none. -/
def Eligibility.pick (e : Eligibility) (name material : String) : Except Problem String :=
  match e.outcome with
  | .error problem => .error problem
  | .ok candidates =>
    match pickText? candidates (Draw.unit material) with
    | none => .error (.noEligibleValue name)
    | some text => .ok text

/-- The text of a variable for some seed material, or why it has none. -/
def Catalog.resolve (catalog : Catalog) (context : Context) (name material : String) :
    Except Problem String :=
  (catalog.eligible context name).pick name material

end SeededText
