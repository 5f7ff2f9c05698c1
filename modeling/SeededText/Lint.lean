import SeededText.Catalog.Basic
import SeededText.Condition.Reader
import SeededText.Expansion.Basic

/-!
# Checking a template and its catalog without expanding

`lint` looks at every node of a template and at every entry of a catalog: references to variables
that the catalog lacks, conditions that cannot be read, values that are no template, variables
that can only repeat themselves, and entries that offer little choice.  An error misbehaves when
it is reached; a warning may.

A finding names its place: the template, or a value of an entry, and perhaps the option whose
condition is meant.
-/

namespace SeededText

/-! ## 1. Findings -/

inductive Place where
  | template
  | value (name : String) (index : Nat)
deriving DecidableEq, Repr

inductive Finding where
  | unknownVariable (place : Place) (name : String)
  /-- a condition that cannot be read; of an option with a title, or of something else -/
  | malformedCondition (place : Place) (option : Option String) (e : MalformedCondition)
  | invalidTemplate (place : Place) (e : TemplateError)
  /-- every value of the variable refers to the variable -/
  | onlyRecursive (name : String)
  | fewValues (name : String) (count : Nat)
  | onlyConditional (name : String)
  /-- some values of the variable refer to the variable -/
  | recursive (name : String) (some all : Nat)
deriving DecidableEq, Repr

/-- The finding is an error; otherwise it is a warning. -/
def Finding.isError : Finding → Bool
  | .unknownVariable .. | .malformedCondition .. | .invalidTemplate .. | .onlyRecursive _ => true
  | .fewValues .. | .onlyConditional _ | .recursive .. => false

def variableLabel (name : String) : String :=
  "Variable '" ++ name ++ "'"

def Place.label : Place → String
  | .template => "template"
  | .value name index => variableLabel name ++ " value #" ++ Decimal.naturalText index

def Finding.message : Finding → String
  | .unknownVariable place name =>
    place.label ++ " references unknown variable '" ++ name ++ "'"
  | .malformedCondition place none e => place.label ++ ": " ++ e.message
  | .malformedCondition place (some title) e =>
    place.label ++ " option '" ++ title ++ "': " ++ e.message
  | .invalidTemplate place e => place.label ++ ": " ++ e.message
  | .onlyRecursive name => variableLabel name ++ " has no non-recursive value (infinite recursion)"
  | .fewValues name count =>
    variableLabel name ++ " has only " ++ Decimal.naturalText count
      ++ " value(s) (at least 2 recommended)"
  | .onlyConditional name =>
    variableLabel name ++ " has no unconditional value and may resolve to nothing"
  | .recursive name count all =>
    variableLabel name ++ " references itself in " ++ Decimal.naturalText count ++ " of "
      ++ Decimal.naturalText all ++ " values"

/-! ## 2. Nodes -/

/-- A condition that cannot be read. -/
def checkCondition (place : Place) (option : Option String) (source : String) : List Finding :=
  match Condition.read source with
  | .ok _ => []
  | .error e => [.malformedCondition place option e]

mutual

/-- The findings of a node and inside it. -/
def checkNode (catalog : Catalog) (place : Place) : Node → List Finding
  | .literal _ => []
  | .variable name => if catalog.contains name then [] else [.unknownVariable place name]
  | .conditional condition thenBranch none =>
    checkCondition place none condition ++ checkNodes catalog place thenBranch
  | .conditional condition thenBranch (some elseBranch) =>
    checkCondition place none condition ++ checkNodes catalog place thenBranch
      ++ checkNodes catalog place elseBranch
  | .optionGroup _ options => checkOptions catalog place options

/-- The findings of nodes and inside them. -/
def checkNodes (catalog : Catalog) (place : Place) : List Node → List Finding
  | [] => []
  | node :: nodes => checkNode catalog place node ++ checkNodes catalog place nodes

/-- The findings of options: first an option's condition, then its body. -/
def checkOptions (catalog : Catalog) (place : Place) : List (Choice Node) → List Finding
  | [] => []
  | ⟨_, none, body⟩ :: options =>
    checkNodes catalog place body ++ checkOptions catalog place options
  | ⟨title, some condition, body⟩ :: options =>
    checkCondition place (some title) condition ++ checkNodes catalog place body
      ++ checkOptions catalog place options

end

/-! ## 3. Entries -/

/-- The findings of one value: its condition, and its text if that has something to expand. -/
def checkValue (catalog : Catalog) (name : String) (index : Nat) (value : Candidate) :
    List Finding :=
  let place := Place.value name index
  let ofCondition :=
    match value.condition with
    | none => []
    | some condition => checkCondition place none condition
  if hasMark value.text then
    match Template.read value.text with
    | .ok template => ofCondition ++ checkNodes catalog place template.nodes
    | .error e => ofCondition ++ [.invalidTemplate place e]
  else
    ofCondition

/-- The value's text is a template that refers to the variable. -/
def Candidate.refersTo (value : Candidate) (name : String) : Bool :=
  hasMark value.text &&
    match Template.read value.text with
    | .ok template => template.variableNames.contains name
    | .error _ => false

/-- The findings of an entry: its choice, its values in order, and its repetitions of itself. -/
def checkEntry (catalog : Catalog) (e : Entry) : List Finding :=
  let all := e.values.length
  let few := if all < 2 then [.fewValues e.name all] else []
  let conditional :=
    if all ≠ 0 && e.values.all (fun v => v.condition.isSome) then [.onlyConditional e.name] else []
  let ofValues := e.values.zipIdx.flatMap fun (v, index) => checkValue catalog e.name index v
  let recursive := (e.values.filter fun v => v.refersTo e.name).length
  let repetition :=
    if recursive = 0 then []
    else if recursive = all then [.onlyRecursive e.name]
    else [.recursive e.name recursive all]
  few ++ conditional ++ ofValues ++ repetition

/-! ## 4. Reports -/

structure Report where
  findings : List Finding
deriving DecidableEq, Repr

/-- The findings of a template and then of every entry in the order of names. -/
def lint (template : Template) (catalog : Catalog) : Report :=
  ⟨checkNodes catalog .template template.nodes ++ catalog.entries.flatMap (checkEntry catalog)⟩

def Report.errors (r : Report) : List Finding :=
  r.findings.filter Finding.isError

def Report.warnings (r : Report) : List Finding :=
  r.findings.filter fun f => !f.isError

def Report.isClean (r : Report) : Bool :=
  r.findings.isEmpty

def Report.hasErrors (r : Report) : Bool :=
  !r.errors.isEmpty

end SeededText
