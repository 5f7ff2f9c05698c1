import SeededText.Json.Stored
import SeededText.Lint
import SeededText.Expansion.Run

/-!
# Preview sessions

A session holds a catalog and answers questions about templates: what a template is made of, what
its variations are, what is wrong with it.  Catalogs, contexts and answers are JSON texts.

A context arrives as a plain object of texts, numbers and flags, not in the stored form; a blank
text is the context without facts.
-/

namespace SeededText

inductive SessionFault where
  /-- the catalog's text is not JSON of the stored form -/
  | catalogText
  | catalog (fault : CatalogFault)
  | template (e : TemplateError)
  /-- the context's text is no JSON object -/
  | contextText
  /-- the value of a key is neither a text nor a number nor a flag -/
  | contextValue (key : String) (value : Json)
  | request (fault : RequestFault)

def SessionFault.message : SessionFault → String
  | .catalogText => "Catalog error: JSON deserialization error"
  | .catalog fault => "Catalog error: " ++ fault.message
  | .template e => e.message
  | .contextText => "Invalid context JSON"
  | .contextValue key value =>
    "Context value '" ++ key ++ "' must be a string, number or boolean, got " ++ value.render
  | .request fault => fault.message

/-! ## 1. Contexts -/

/-- The value that a plain JSON value stands for. -/
def Value.ofPlain? : Json → Option Value
  | .string s => some (.text s)
  | .bool b => some (.flag b)
  | .number n => n.quantity?.map fun quantity => .number quantity.toFloat
  | .null | .array _ | .object _ | .unreadable => none

/-- One fact of a plain object. -/
def plainFact (field : String × Json) : Except SessionFault (String × Value) :=
  match Value.ofPlain? field.2 with
  | some value => .ok (field.1, value)
  | none => .error (.contextValue field.1 field.2)

/-- The context that a plain object writes. -/
def Context.ofPlain (source : String) : Except SessionFault Context :=
  if Text.allBlank source.toList then
    .ok .empty
  else
    match (Json.read? source).bind Json.settle? with
    | some (.object fields) => (fields.mapM plainFact).map Context.ofList
    | _ => .error .contextText

/-! ## 2. Answers -/

def textArray (texts : List String) : Json :=
  .array (texts.map .string)

/-- A problem with the index of its variation. -/
def Diagnostic.toJson (d : Diagnostic) : Json :=
  .object [("variation", .number (.ofNat d.variation)), ("message", .string d.problem.message)]

def Run.toJson (run : Run) : Json :=
  .object
    [("seed", .string run.seed), ("variations", textArray run.variations),
     ("diagnostics", .array (run.diagnostics.map Diagnostic.toJson))]

def Report.toJson (r : Report) : Json :=
  .object
    [("errors", textArray (r.errors.map Finding.message)),
     ("warnings", textArray (r.warnings.map Finding.message))]

/-! ## 3. Sessions -/

/-- A session: the catalog that its questions are about. -/
structure Session where
  catalog : Catalog

namespace Session

/-- Begins a session with a stored catalog. -/
def start (catalogText : String) : Except SessionFault Session :=
  match Entry.listOfJson? catalogText with
  | none => .error .catalogText
  | some entries =>
    match Catalog.ofEntries entries with
    | .error fault => .error (.catalog fault)
    | .ok catalog => .ok ⟨catalog⟩

def template (source : String) : Except SessionFault Template :=
  (Template.read source).mapError .template

def parts (source : String) : Except SessionFault String := do
  let t ← template source
  return t.toJson.render

/-- Variations of a template under the default limits. -/
def variations (session : Session) (fresh source contextText : String) (seed : Option String)
    (count : Nat) : Except SessionFault String := do
  let t ← template source
  let context ← Context.ofPlain contextText
  let request : Request := ⟨t, session.catalog, context⟩
  let run ← (request.run .default fresh seed count).mapError .request
  return run.toJson.render

/-- What is wrong with a template and the catalog. -/
def findings (session : Session) (source : String) : Except SessionFault String := do
  let t ← template source
  return (lint t session.catalog).toJson.render

/-- The names of the variables in the catalog. -/
def variableNames (session : Session) : String :=
  (textArray session.catalog.names).render

end Session

end SeededText
