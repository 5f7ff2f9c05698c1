import SeededText.Command.Preview
import SeededText.Command.Linter

/-!
# The program

The first argument names the command and the others are its own.  Files are read before the
command runs, one for each argument that is the path of a file, and a fresh seed is drawn in case
the command needs one.
-/

namespace SeededText.Main

open SeededText.Command

/-- The fault that a failed reading means. -/
def faultOf : IO.Error → FileFault
  | .inappropriateType _ code _ => if code = 21 then .isDirectory else .notDirectory
  | .invalidArgument .. => .nameTooLong
  | _ => .missing

def readText (path : String) : IO (Except FileFault String) := do
  try
    let bytes ← IO.FS.readBinFile path
    return (String.fromUTF8? bytes).elim (.error .notText) .ok
  catch e =>
    return .error (faultOf e)

/-- The texts of the files among the arguments. -/
def readFiles (args : List String) : IO Files := do
  let texts ← args.mapM fun path => do return (path, ← readText path)
  return fun path => (texts.lookup path).getD (.error .missing)

/-- A seed of sixteen hexadecimal digits. -/
def freshSeed : IO String := do
  let n ← IO.rand 0 (Decimal.wordCount - 1)
  let digits := Nat.toDigits 16 n
  return String.ofList (List.replicate (16 - digits.length) '0' ++ digits)

end SeededText.Main

open SeededText Command in
/-- Runs the command that the first argument names. -/
def main (args : List String) : IO UInt32 := do
  let files ← Main.readFiles (args.drop 1)
  let outcome ←
    match args with
    | "preview" :: rest => do pure (Preview.command files (← Main.freshSeed) rest)
    | "template_linter" :: rest => pure (Linter.command files rest)
    | _ => pure ⟨1, "Usage: preview | template_linter\n", ""⟩
  IO.print outcome.output
  IO.eprint outcome.errors
  return UInt32.ofNat outcome.code
