import SeededText.Json.Reader
import SeededText.Json.Record
import SeededText.Json.Writer
import SeededText.Template.Basic
import SeededText.Catalog.Basic
import SeededText.Context

/-!
# The stored forms of the library's data in JSON

Entries and templates are records, a node and a value are kinds.  Reading refuses a text as a
whole; whether entries make up a catalog is another question and not this module's.
-/

namespace SeededText

open Json

/-! ## 1. Values and contexts -/

/-- A value, by the name of its kind. -/
def Value.ofJson? (json : Json) : Option Value := do
  let (kind, inner) ← asKind json
  match kind with
  | "String" => (asText inner).map .text
  | "Number" => (asReal inner).map .number
  | "Bool" => (asFlag inner).map .flag
  | _ => none

def Context.ofJson? (source : String) : Option Context := do
  match ← Json.read? source with
  | .object fields =>
    let pairs ← fields.mapM fun (key, value) => do
      return (key, ← Value.ofJson? value)
    return Context.ofList pairs
  | _ => none

/-! ## 2. Entries -/

/-- A candidate; without a weight it has the default one. -/
def Candidate.ofJson? (json : Json) : Option Candidate := do
  let fields ← asFields ["text", "weight", "condition"] json
  return {
    text := ← fields.required "text" asText
    weight := ← fields.withDefault "weight" Candidate.defaultWeight asReal
    condition := ← fields.withDefault "condition" none (asOptional asText) }

def Entry.ofJson? (json : Json) : Option Entry := do
  let fields ← asFields ["name", "description", "values"] json
  return {
    name := ← fields.required "name" asText
    description := ← fields.withDefault "description" none (asOptional asText)
    values := ← fields.required "values" (asList Candidate.ofJson?) }

def Entry.listOfJson? (source : String) : Option (List Entry) := do
  asList Entry.ofJson? (← Json.read? source)

/-! ## 3. Templates

A template is stored in two ways.  A text that is read for a template may give the fields of a
node by their places, like those of any record.  In a free value, which was kept before anyone
knew what it is, what a node holds must name its fields; only a template and an option, which
are not behind the name of a kind, may still be arrays there. -/

/-- The fields that a node holds: by their names or, if `placed`, perhaps by their places. -/
def nodeFields (placed : Bool) (known : List String) (json : Json) : Option Fields :=
  if placed then asFields known json else asNamedFields known json

mutual

/-- A node, by the name of its kind; `fuel` bounds the nesting. -/
def Node.ofJson? (placed : Bool) : (fuel : Nat) → Json → Option Node
  | 0, _ => none
  | fuel + 1, json => do
    let (kind, inner) ← asKind json
    match kind with
    | "Literal" => (asText inner).map .literal
    | "Variable" => (asText inner).map .variable
    | "Conditional" => do
      let fields ← nodeFields placed ["expr", "then_branch", "else_branch"] inner
      let condition ← fields.required "expr" asText
      let thenBranch ← fields.required "then_branch" (asList (Node.ofJson? placed fuel))
      let elseBranch ← fields.named "else_branch" none (asOptional (asList (Node.ofJson? placed fuel)))
      return .conditional condition thenBranch elseBranch
    | "OptionGroup" => do
      let fields ← nodeFields placed ["index", "options"] inner
      let index ← fields.required "index" asIndex
      let options ← fields.required "options" (asList (Choice.ofJson? placed fuel))
      return .optionGroup index options
    | _ => none

def Choice.ofJson? (placed : Bool) : (fuel : Nat) → Json → Option (Choice Node)
  | 0, _ => none
  | fuel + 1, json => do
    let fields ← asFields ["title", "condition", "body"] json
    let title ← fields.required "title" asText
    let condition ← fields.withDefault "condition" none (asOptional asText)
    let body ← fields.required "body" (asList (Node.ofJson? placed fuel))
    return ⟨title, condition, body⟩

end

/-- A template, its nodes nested no deeper than `fuel`. -/
def Template.ofRecord? (placed : Bool) (fuel : Nat) (json : Json) : Option Template := do
  let fields ← asFields ["nodes"] json
  let nodes ← fields.required "nodes" (asList (Node.ofJson? placed fuel))
  return ⟨nodes⟩

def Template.ofJson? (source : String) : Option Template := do
  Template.ofRecord? true source.length (← Json.read? source)

/-- A template that is the free value which a text writes. -/
def Template.ofFreeJson? (source : String) : Option Template := do
  Template.ofRecord? false source.length (← (← Json.read? source).settle?)

mutual

def Node.toJson : Node → Json
  | .literal text => .object [("Literal", .string text)]
  | .variable name => .object [("Variable", .string name)]
  | .conditional condition thenBranch none =>
    .object [("Conditional", .object
      [("expr", .string condition), ("then_branch", .array (Node.listToJson thenBranch)),
       ("else_branch", .null)])]
  | .conditional condition thenBranch (some elseBranch) =>
    .object [("Conditional", .object
      [("expr", .string condition), ("then_branch", .array (Node.listToJson thenBranch)),
       ("else_branch", .array (Node.listToJson elseBranch))])]
  | .optionGroup index options =>
    .object [("OptionGroup", .object
      [("index", .number (.ofNat index)), ("options", .array (Choice.listToJson options))])]

def Node.listToJson : List Node → List Json
  | [] => []
  | node :: nodes => node.toJson :: Node.listToJson nodes

def Choice.listToJson : List (Choice Node) → List Json
  | [] => []
  | ⟨title, condition, body⟩ :: options =>
    .object
      [("title", .string title), ("condition", .ofText? condition),
       ("body", .array (Node.listToJson body))] :: Choice.listToJson options

end

def Template.toJson (template : Template) : Json :=
  .object [("nodes", .array (Node.listToJson template.nodes))]

end SeededText
