import SeededText.Command.Basic
import SeededText.Expansion.Run

/-!
# The preview command

Prints variations of a template: the seed, each variation under its number, and the problems met.
The template is read first and taken apart last, after the catalogs, the context and the limits.
-/

namespace SeededText.Command.Preview

def usage : String :=
  lines
    ["Usage: preview --template <file> --catalog <catalog.ron|.json> [options]",
     "",
     "Options:",
     "  --catalog <path>   Variable catalog; repeat to merge, later files win",
     "  --context <path>   Generation context (RON map)",
     "  --config <path>    Engine config (RON)",
     "  --seed <s>         Seed string; omitted draws a random one",
     "  --count <n>        Number of variations (default 5)",
     "  --verbose, -v      Debug logging to stderr"]

/-- What the arguments ask for. -/
structure Options where
  template : Option String
  catalogs : List String
  context : Option String
  config : Option String
  seed : Option String
  count : Nat
deriving DecidableEq, Repr

def Options.start : Options :=
  ⟨none, [], none, none, none, 5⟩

/-- A count: a natural number below `2 ^ 64`, perhaps with a plus sign; anything else is five. -/
def readCount (text : String) : Nat :=
  let digits :=
    match text.toList with
    | '+' :: rest => rest
    | cs => cs
  match Decimal.readNatural? digits with
  | some n => if n < Decimal.wordCount then n else 5
  | none => 5

/-- The option with a value, if the name is one. -/
def Options.set? (o : Options) (name value : String) : Option Options :=
  match name with
  | "--template" => some { o with template := some value }
  | "--catalog" => some { o with catalogs := o.catalogs ++ [value] }
  | "--context" => some { o with context := some value }
  | "--config" => some { o with config := some value }
  | "--seed" => some { o with seed := some value }
  | "--count" => some { o with count := readCount value }
  | _ => none

/-- Reads the arguments; the first that is unknown, or lacks its value, is named. -/
def Options.readFrom (o : Options) : List String → Except String Options
  | [] => .ok o
  | [name] =>
    if name = "--verbose" || name = "-v" then .ok o else .error name
  | name :: value :: rest =>
    match o.set? name value with
    | some o => o.readFrom rest
    | none =>
      if name = "--verbose" || name = "-v" then o.readFrom (value :: rest) else .error name

def variationLines (number : Nat) (text : String) : String :=
  "--- Variation " ++ Decimal.naturalText number ++ " ---\n" ++ text ++ "\n\n"

/-- The lines of the problems, if there are any. -/
def diagnosticLines (diagnostics : List Diagnostic) : String :=
  if diagnostics.isEmpty then
    ""
  else
    lines <| "=== Diagnostics ===" :: diagnostics.map fun d =>
      "[variation " ++ Decimal.naturalText (d.variation + 1) ++ "] " ++ d.problem.message

def runLines (run : Run) : String :=
  "Seed: " ++ run.seed ++ "\n\n"
    ++ String.join (run.variations.zipIdx.map fun (text, index) => variationLines (index + 1) text)
    ++ diagnosticLines run.diagnostics

/-- The limits that a path gives, or the default ones. -/
def limitsOf (files : Files) (config : Option String) : Except LoadFault Limits := do
  let loaded ←
    match config with
    | none => pure none
    | some path => loadLimits files path
  (Limits.assemble none loaded .none).mapError .limits

/-- The context that a path gives, or the one without facts. -/
def contextOf (files : Files) (path : Option String) : Except String Context :=
  match path with
  | none => .ok .empty
  | some path =>
    (loadContext files path).mapError fun fault =>
      "Failed to load context '" ++ path ++ "': " ++ fault.message

/-- The command after its arguments are read and the template's text is there. -/
def preview (files : Files) (fresh : String) (o : Options) (path source : String) : Outcome :=
  let said path (catalog : Catalog) :=
    "Loaded " ++ Decimal.naturalText catalog.size ++ " variables from " ++ path ++ "\n"
  match mergeCatalogs (loadCatalog files) said .empty "" o.catalogs with
  | .error (output, message) => failed output message
  | .ok (catalog, output) =>
    match contextOf files o.context with
    | .error message => failed output message
    | .ok context =>
      match limitsOf files o.config with
      | .error fault => failed output ("Invalid engine config: " ++ fault.message)
      | .ok limits =>
        match Template.read source with
        | .error e => failed output (path ++ ": " ++ e.message)
        | .ok template =>
          match (Request.mk template catalog context).run limits fresh o.seed o.count with
          | .error fault => failed output fault.message
          | .ok run => ⟨0, output ++ runLines run, ""⟩

/-- The command; `fresh` is the seed to use where none is given. -/
def command (files : Files) (fresh : String) (args : List String) : Outcome :=
  if args.isEmpty || args.head? = some "--help" || args.head? = some "-h" then
    ⟨0, usage, ""⟩
  else
    match Options.start.readFrom args with
    | .error name => ⟨1, usage, "Unknown argument: " ++ name ++ "\n"⟩
    | .ok o =>
      match o.template with
      | none => failed "" "--template is required"
      | some path =>
        match files path with
        | .error fault =>
          failed "" ("Failed to read template '" ++ path ++ "': " ++ fault.message)
        | .ok source => preview files fresh o path source

end SeededText.Command.Preview
