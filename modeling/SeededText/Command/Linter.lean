import SeededText.Command.Basic
import SeededText.Lint

/-!
# The linter command

Prints what is wrong with a template and its catalogs, and fails if an error is among it.  The
first argument is the template's path; of the others only catalogs are looked at.
-/

namespace SeededText.Command.Linter

def usage : String :=
  "Usage: template_linter <template file> --catalog <catalog.ron> [--catalog <more>]\n"

/-- The paths of catalogs among the arguments. -/
def catalogPaths : List String → List String
  | "--catalog" :: path :: rest => path :: catalogPaths rest
  | _ :: rest => catalogPaths rest
  | [] => []

def heading : String := "\n=== Template Lint Report ===\n\n"

def summary (errors warnings : Nat) : String :=
  "\nSummary: " ++ Decimal.naturalText errors ++ " errors, " ++ Decimal.naturalText warnings
    ++ " warnings\n"

/-- The lines of a report, warnings first. -/
def reportLines (r : Report) : String :=
  heading
    ++ (if r.isClean then "All checks passed!\n" else "")
    ++ lines (r.warnings.map fun f => "WARNING: " ++ f.message)
    ++ lines (r.errors.map fun f => "ERROR: " ++ f.message)
    ++ summary r.errors.length r.warnings.length

/-- The command once the template's text is there. -/
def check (files : Files) (source : String) (paths : List String) : Outcome :=
  let said path (_ : Catalog) := "  Loaded: " ++ path ++ "\n"
  match mergeCatalogs (loadRonCatalog files) said .empty "" paths with
  | .error (output, message) => failed output message
  | .ok (catalog, output) =>
    let output := output ++ "Loaded " ++ Decimal.naturalText catalog.size ++ " variables\n"
    match Template.read source with
    | .error e => ⟨1, output ++ heading ++ "ERROR: " ++ e.message ++ "\n" ++ summary 1 0, ""⟩
    | .ok template =>
      let report := lint template catalog
      ⟨if report.hasErrors then 1 else 0, output ++ reportLines report, ""⟩

def command (files : Files) (args : List String) : Outcome :=
  match args with
  | [] => ⟨0, usage, ""⟩
  | path :: rest =>
    if path = "--help" || path = "-h" then
      ⟨0, usage, ""⟩
    else
      match files path with
      | .error fault =>
        failed "" ("Failed to read template '" ++ path ++ "': " ++ fault.message)
      | .ok source => check files source (catalogPaths rest)

end SeededText.Command.Linter
