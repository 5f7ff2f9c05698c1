import SeededText.Command.Basic

/-!
# The directory that a command runs in

The directory holds files and no other directories, and a path is followed in it part by part.  An
empty part and a single point stay where they are, and two points lead out to where nothing can be
found.  A path that begins with a slash begins at the root, of which only what every system has is
known: some directories, and among the devices the file that is always empty.  All of this asks for
a directory to stand in: no path leads on from a file.
-/

namespace SeededText.Command

/-- Files by their names, each with its text or why it has none. -/
structure Directory where
  files : List (String × Except FileFault String)

/-- Where a path has led so far. -/
inductive Spot where
  | inside
  | outside
  | root
  | devices
  | file (text : Except FileFault String)

namespace Directory

/-- How many bytes a part of a path may have. -/
def partLimit : Nat := 255

/-- How many bytes a path may have. -/
def pathLimit : Nat := 4095

/-- The directories that every root has. -/
def rootDirectories : List String :=
  ["bin", "etc", "home", "lib", "proc", "sys", "tmp", "usr", "var"]

/-- What stands under a name at a spot. -/
def find (d : Directory) (spot : Spot) (name : String) : Except FileFault Spot :=
  if name.utf8ByteSize > partLimit then
    .error .nameTooLong
  else
    match spot with
    | .file _ => .error .notDirectory
    | .inside =>
      match d.files.lookup name with
      | some text => .ok (.file text)
      | none => .error .missing
    | .outside => .error .missing
    | .root =>
      if name = "dev" then .ok .devices
      else if rootDirectories.contains name then .ok .outside
      else .error .missing
    | .devices => if name = "null" then .ok (.file (.ok "")) else .error .missing

def parent : Spot → Spot
  | .root | .devices => .root
  | .inside | .outside | .file _ => .outside

def follow (d : Directory) (spot : Spot) (part : List Char) : Except FileFault Spot :=
  match spot with
  | .file _ => .error .notDirectory
  | _ =>
    if part.isEmpty || part = ['.'] then .ok spot
    else if part = ['.', '.'] then .ok (parent spot)
    else d.find spot (String.ofList part)

def read (d : Directory) : Files := fun path =>
  let start : Spot := if path.toList.head? = some '/' then .root else .inside
  if path.isEmpty then
    .error .missing
  else if path.utf8ByteSize > pathLimit then
    .error .nameTooLong
  else
    match (Text.splitAtEach (· = '/') path.toList).foldlM d.follow start with
    | .error fault => .error fault
    | .ok (.file text) => text
    | .ok _ => .error .isDirectory

end Directory

end SeededText.Command
