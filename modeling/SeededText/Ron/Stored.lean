import SeededText.Ron.Reader
import SeededText.Ron.Record
import SeededText.Ron.Writer
import SeededText.Template.Basic
import SeededText.Catalog.Basic
import SeededText.Context
import SeededText.Limits

/-!
# The stored forms of the library's data in RON

Contexts are maps from keys to values, catalogs lists of entries, limits and templates records.
What is written here reads back, unless it nests deeper than reading goes.  Reading refuses a text
as a whole; only the rules of a catalog or of limits are refused with a reason, and those are not
this module's.
-/

namespace SeededText

open Ron

/-! ## 1. Values and contexts -/

/-- A value, by the name of its kind. -/
def Value.ofRon? : As Value
  | levels + 1, .tuple (some name) [item] =>
    if name.text = "String".toList then (inside asText levels item).map .text
    else if name.text = "Number".toList then (inside asReal levels item).map .number
    else if name.text = "Bool".toList then (inside asFlag levels item).map .flag
    else none
  | _, _ => none

def Value.toRon : Value → String
  | .text s => "String(" ++ renderText s ++ ")"
  | .number x => "Number(" ++ Decimal.pointed x ++ ")"
  | .flag b => if b then "Bool(true)" else "Bool(false)"

def Context.ofRon? (source : String) : Option Context := do
  let text ← RonText.read? source
  return Context.ofList (← asPairs Value.ofRon? levelLimit text.value)

/-! ## 2. Entries and catalogs -/

/-- A candidate; without a weight it has the default one. -/
def Candidate.ofRon? (implicitSome : Bool) : As Candidate := fun levels value => do
  let fields ←
    asFields implicitSome "VariableValue" ["text", "weight", "condition"] levels value
  return {
    text := ← fields.required "text" asText
    weight := ← fields.withDefault "weight" Candidate.defaultWeight asReal
    condition := ← fields.withDefault "condition" none (asOptional implicitSome asText) }

def Entry.ofRon? (implicitSome : Bool) : As Entry := fun levels value => do
  let fields ←
    asFields implicitSome "VariableEntry" ["name", "description", "values"] levels value
  return {
    name := ← fields.required "name" asText
    description := ← fields.withDefault "description" none (asOptional implicitSome asText)
    values := ← fields.required "values" (asList (Candidate.ofRon? implicitSome)) }

/-- The entries that a text stores; whether they make up a catalog is another question. -/
def Entry.listOfRon? (source : String) : Option (List Entry) := do
  let text ← RonText.read? source
  asList (Entry.ofRon? text.implicitSome) levelLimit text.value

def Candidate.toRon (v : Candidate) : String :=
  renderRecord
    [("text", renderText v.text), ("weight", Decimal.pointed v.weight),
     ("condition", renderOptional (v.condition.map renderText))]

def Entry.toRon (e : Entry) : String :=
  renderRecord
    [("name", renderText e.name), ("description", renderOptional (e.description.map renderText)),
     ("values", renderList (e.values.map Candidate.toRon))]

/-- The stored form of a catalog: its entries in the order of their names. -/
def Catalog.toRon (c : Catalog) : String :=
  renderList (c.entries.map Entry.toRon)

/-! ## 3. Limits -/

/-- Limits that a text stores; what is left out has its default. -/
def Limits.ofRon? (source : String) : Option Limits := do
  let text ← RonText.read? source
  let fields ← asFields text.implicitSome "EngineConfig"
    ["max_recursion_depth", "max_variations", "max_expansions"] levelLimit text.value
  return {
    maxRecursionDepth :=
      ← fields.withDefault "max_recursion_depth" Limits.default.maxRecursionDepth asIndex
    maxVariations := ← fields.withDefault "max_variations" Limits.default.maxVariations asIndex
    maxExpansions := ← fields.withDefault "max_expansions" Limits.default.maxExpansions asIndex }

def Limits.toRon (limits : Limits) : String :=
  renderRecord
    [("max_recursion_depth", Decimal.naturalText limits.maxRecursionDepth),
     ("max_variations", Decimal.naturalText limits.maxVariations),
     ("max_expansions", Decimal.naturalText limits.maxExpansions)]

/-! ## 4. Templates -/

mutual

/-- A node, by the name of its kind, on which a level is spent.  `fuel` bounds the nesting; the
levels run out before it does. -/
def Node.ofRon? (implicitSome : Bool) : (fuel : Nat) → As Node
  | 0, _, _ => none
  | _ + 1, 0, _ => none
  | fuel + 1, levels + 1, value =>
    match value with
    | .tuple (some name) [item] =>
      if name.text = "Literal".toList then (inside asText levels item).map .literal
      else if name.text = "Variable".toList then (inside asText levels item).map .variable
      else none
    | .record (some name) _ =>
      if name.text = "Conditional".toList then do
        let fields ←
          asFields implicitSome "Conditional" ["expr", "then_branch", "else_branch"] levels value
        let condition ← fields.required "expr" asText
        let thenBranch ← fields.required "then_branch" (asList (Node.ofRon? implicitSome fuel))
        let elseBranch ← fields.withDefault "else_branch" none
          (asOptional implicitSome (asList (Node.ofRon? implicitSome fuel)))
        return .conditional condition thenBranch elseBranch
      else if name.text = "OptionGroup".toList then do
        let fields ← asFields implicitSome "OptionGroup" ["index", "options"] levels value
        let index ← fields.required "index" asIndex
        let options ← fields.required "options" (asList (Choice.ofRon? implicitSome fuel))
        return .optionGroup index options
      else none
    | _ => none

def Choice.ofRon? (implicitSome : Bool) : (fuel : Nat) → As (Choice Node)
  | 0, _, _ => none
  | fuel + 1, levels, value => do
    let fields ←
      asFields implicitSome "TemplateOption" ["title", "condition", "body"] levels value
    let title ← fields.required "title" asText
    let condition ← fields.withDefault "condition" none (asOptional implicitSome asText)
    let body ← fields.required "body" (asList (Node.ofRon? implicitSome fuel))
    return ⟨title, condition, body⟩

end

def Template.ofRon? (source : String) : Option Template := do
  let text ← RonText.read? source
  let fields ← asFields text.implicitSome "Template" ["nodes"] levelLimit text.value
  let nodes ← fields.required "nodes" (asList (Node.ofRon? text.implicitSome levelLimit))
  return ⟨nodes⟩

mutual

def Node.toRon : Node → String
  | .literal text => "Literal(" ++ renderText text ++ ")"
  | .variable name => "Variable(" ++ renderText name ++ ")"
  | .conditional condition thenBranch none =>
    "Conditional" ++ renderRecord
      [("expr", renderText condition), ("then_branch", renderList (Node.listToRon thenBranch)),
       ("else_branch", renderOptional none)]
  | .conditional condition thenBranch (some elseBranch) =>
    "Conditional" ++ renderRecord
      [("expr", renderText condition), ("then_branch", renderList (Node.listToRon thenBranch)),
       ("else_branch", renderOptional (some (renderList (Node.listToRon elseBranch))))]
  | .optionGroup index options =>
    "OptionGroup" ++ renderRecord
      [("index", Decimal.naturalText index), ("options", renderList (Choice.listToRon options))]

def Node.listToRon : List Node → List String
  | [] => []
  | node :: nodes => node.toRon :: Node.listToRon nodes

def Choice.listToRon : List (Choice Node) → List String
  | [] => []
  | ⟨title, condition, body⟩ :: options =>
    renderRecord
      [("title", renderText title),
       ("condition", renderOptional (condition.map renderText)),
       ("body", renderList (Node.listToRon body))] :: Choice.listToRon options

end

def Template.toRon (template : Template) : String :=
  renderRecord [("nodes", renderList (Node.listToRon template.nodes))]

end SeededText
