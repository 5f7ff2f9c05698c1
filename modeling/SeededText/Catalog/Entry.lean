import SeededText.Text.Blank
import SeededText.Decimal.Layout

/-!
# Variables and their candidate values

An entry of a catalog is a variable: its name, perhaps a description, and its candidate values in
the author's order.  A candidate has a text, a weight and perhaps a condition.

An entry is valid when its name is not blank and every weight is finite and greater than zero.
`Entry.check` says so, or names the first thing that is wrong, the name before the weights.
-/

namespace SeededText

structure Candidate where
  text : String
  weight : Float
  condition : Option String
deriving DecidableEq, Repr

structure Entry where
  name : String
  description : Option String
  values : List Candidate
deriving DecidableEq, Repr

inductive CatalogFault where
  | duplicateVariable (name : String)
  | emptyName
  | invalidWeight (name : String) (index : Nat) (weight : Float)
deriving DecidableEq, Repr

def CatalogFault.message : CatalogFault → String
  | .duplicateVariable name => "variable '" ++ name ++ "' is defined more than once"
  | .emptyName => "variable name must not be empty"
  | .invalidWeight name index weight =>
    "variable '" ++ name ++ "' value #" ++ Decimal.naturalText index ++ " has invalid weight "
      ++ Decimal.plain weight ++ " (must be finite and > 0)"

/-- The weight of a candidate that nothing else is said of. -/
def Candidate.defaultWeight : Float := 1

/-- The weight is finite and greater than zero. -/
def validWeight (weight : Float) : Bool :=
  weight.isFinite && 0 < weight

/-- The name is not blank and every weight is finite and greater than zero. -/
def Entry.Valid (e : Entry) : Prop :=
  Text.allBlank e.name.toList = false ∧ ∀ v ∈ e.values, validWeight v.weight = true

instance (e : Entry) : Decidable e.Valid :=
  inferInstanceAs (Decidable (_ ∧ _))

/-- The first thing that is wrong with an entry. -/
def Entry.fault? (e : Entry) : Option CatalogFault :=
  if Text.allBlank e.name.toList then
    some .emptyName
  else
    (e.values.zipIdx.find? fun (v, _) => !validWeight v.weight).map fun (v, index) =>
      .invalidWeight e.name index v.weight

/-- An entry is valid exactly when nothing is wrong with it. -/
theorem Entry.fault?_eq_none_iff (e : Entry) : e.fault? = none ↔ e.Valid := by
  unfold Entry.fault? Entry.Valid
  split
  · next h => simp [h]
  · next h =>
    simp only [Bool.not_eq_true] at h
    simp only [Option.map_eq_none_iff, List.find?_eq_none, h, true_and]
    constructor
    · intro hall v hv
      obtain ⟨i, hi, rfl⟩ := List.getElem_of_mem hv
      have := hall (e.values[i], i) (by simp [List.mem_zipIdx_iff_getElem?, hi])
      simpa using this
    · intro hall p hp
      have hmem : p.1 ∈ e.values := by
        have := List.mem_zipIdx_iff_getElem?.1 hp
        exact List.mem_of_getElem? this
      simp [hall p.1 hmem]

end SeededText
