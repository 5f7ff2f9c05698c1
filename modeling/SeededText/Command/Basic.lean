import SeededText.Catalog.Basic
import SeededText.Ron.Stored
import SeededText.Json.Stored

/-!
# Command lines

A command is a function from its arguments and the files it may read to what it prints and its
exit code.  Nothing here touches a file: reading them is a table that the caller gives.
-/

namespace SeededText.Command

/-- Why a path gives no text. -/
inductive FileFault where
  | missing
  /-- the path leads on from a file as if it were a directory -/
  | notDirectory
  /-- the path, or a part of it, is longer than any may be -/
  | nameTooLong
  | isDirectory
  /-- the file holds other bytes than those of a text -/
  | notText
deriving DecidableEq, Repr

def FileFault.message : FileFault → String
  | .missing => "No such file or directory (os error 2)"
  | .notDirectory => "Not a directory (os error 20)"
  | .isDirectory => "Is a directory (os error 21)"
  | .nameTooLong => "File name too long (os error 36)"
  | .notText => "stream did not contain valid UTF-8"

/-- There is something at the path, though it gives no text. -/
def FileFault.exists : FileFault → Bool
  | .missing | .notDirectory | .nameTooLong => false
  | .isDirectory | .notText => true

/-- The texts of files by their paths. -/
abbrev Files := String → Except FileFault String

/-- What a command leaves: its exit code, what it prints, and what it says of errors. -/
structure Outcome where
  code : Nat
  output : String
  errors : String
deriving DecidableEq, Repr

def lines (texts : List String) : String :=
  String.join (texts.map (· ++ "\n"))

def failed (output message : String) : Outcome :=
  ⟨1, output, "ERROR: " ++ message ++ "\n"⟩

/-! ## Loading -/

inductive LoadFault where
  | file (fault : FileFault)
  | ron
  | json
  | catalog (fault : CatalogFault)
  | limits (fault : LimitsFault)
deriving DecidableEq, Repr

def LoadFault.message : LoadFault → String
  | .file fault => "IO error: " ++ fault.message
  | .ron => "RON deserialization error"
  | .json => "JSON deserialization error"
  | .catalog fault => fault.message
  | .limits fault => fault.message

def loadText (files : Files) (path : String) : Except LoadFault String :=
  (files path).mapError .file

/-- The catalog that entries make up. -/
def catalogOf (entries : List Entry) : Except LoadFault Catalog :=
  (Catalog.ofEntries entries).mapError .catalog

def loadRonCatalog (files : Files) (path : String) : Except LoadFault Catalog := do
  let text ← loadText files path
  match Entry.listOfRon? text with
  | none => throw .ron
  | some entries => catalogOf entries

def loadJsonCatalog (files : Files) (path : String) : Except LoadFault Catalog := do
  let text ← loadText files path
  match Entry.listOfJson? text with
  | none => throw .json
  | some entries => catalogOf entries

/-- The part of a path after its last slash, slashes at the end aside. -/
def fileName (path : String) : List Char :=
  let reversed := path.toList.reverse.dropWhile fun c => c = '/'
  (reversed.takeWhile fun c => c ≠ '/').reverse

/-- The part of a file's name after its last point, unless the point comes first. -/
def extension? (path : String) : Option (List Char) :=
  let reversed := (fileName path).reverse
  match reversed.dropWhile fun c => c ≠ '.' with
  | '.' :: _ :: _ => some (reversed.takeWhile fun c => c ≠ '.').reverse
  | _ => none

/-- A catalog stored as JSON or RON, by the end of its path. -/
def loadCatalog (files : Files) (path : String) : Except LoadFault Catalog :=
  if extension? path = some ['j', 's', 'o', 'n'] then loadJsonCatalog files path
  else loadRonCatalog files path

def loadContext (files : Files) (path : String) : Except LoadFault Context := do
  let text ← loadText files path
  match Context.ofRon? text with
  | none => throw .ron
  | some context => return context

/-- Limits stored as RON, if there is a file; stored limits are checked by themselves. -/
def loadLimits (files : Files) (path : String) : Except LoadFault (Option Limits) :=
  match files path with
  | .error fault => if fault.exists then .error (.file fault) else .ok none
  | .ok text =>
    match Limits.ofRon? text with
    | none => .error .ron
    | some limits => (limits.check.mapError LoadFault.limits).map some

/-- Catalogs merged in order, what is printed for each, and the one that could not be loaded. -/
def mergeCatalogs (load : String → Except LoadFault Catalog) (said : String → Catalog → String)
    (catalog : Catalog) (output : String) :
    List String → Except (String × String) (Catalog × String)
  | [] => .ok (catalog, output)
  | path :: paths =>
    match load path with
    | .error fault =>
      .error (output, "Failed to load catalog '" ++ path ++ "': " ++ fault.message)
    | .ok loaded =>
      mergeCatalogs load said (catalog.merge loaded) (output ++ said path loaded) paths

end SeededText.Command
