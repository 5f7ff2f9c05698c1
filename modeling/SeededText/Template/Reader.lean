import SeededText.Template.Attributes
import SeededText.Template.Piece

/-!
# Reading a template

The reader goes through the pieces of a text with a stack of open blocks.  Plain text is kept
pending until the next tag, so that neighbouring pieces of plain text become one literal.  An open
block is a `Frame`: what it will become, the nodes read inside it, and where it was opened.

Directly inside an options group only blanks may stand between the options; they are dropped.

`Reader.take` is one step and `readTemplate` the whole reading: the pieces in order, then the
check that no block is open.  The first fault met is the answer; faults carry offsets, and only
`Template.read` turns an offset into a line and a column.
-/

namespace SeededText

open Text

/-! ## 1. Open blocks -/

/-- What an open block will become. -/
inductive Block where
  /-- a conditional; its then-branch is set once the else tag is met -/
  | conditional (condition : String) (thenBranch : Option (List Node))
  /-- an options group and the options closed so far, the last one first -/
  | options (index : Nat) (closed : List (Choice Node))
  /-- one option of a group -/
  | optionBody (title : String) (condition : Option String)
deriving DecidableEq, Repr

/-- An open block, the nodes read inside it, the last one first, and the offset of its opening
tag. -/
structure Frame where
  block : Block
  nodes : List Node
  openedAt : Nat
deriving DecidableEq, Repr

def Frame.isConditional (f : Frame) : Bool :=
  match f.block with
  | .conditional .. => true
  | .options .. | .optionBody .. => false

/-- The state of the reading: how many characters are read, the pending plain text, its last
character first, and where it begins, the nodes outside all blocks, the last one first, the open
blocks from the innermost outwards, and the number of option groups met. -/
structure Reader where
  offset : Nat
  pending : List Char
  pendingAt : Nat
  root : List Node
  stack : List Frame
  groups : Nat
deriving DecidableEq, Repr

def Reader.start : Reader :=
  ⟨0, [], 0, [], [], 0⟩

def Reader.inOptions (r : Reader) : Bool :=
  match r.stack with
  | ⟨.options .., _, _⟩ :: _ => true
  | _ => false

def faultAt {α : Type} (offset : Nat) (cause : TemplateCause) : Except TemplateFault α :=
  .error ⟨offset, cause⟩

/-! ## 2. Text and nodes -/

def Reader.append (r : Reader) (text : List Char) : Reader :=
  { r with
    pending := text.reverseAux r.pending
    pendingAt := if r.pending.isEmpty then r.offset else r.pendingAt }

/-- Puts a node at the end of the innermost open block. -/
def Reader.place (r : Reader) (node : Node) : Reader :=
  match r.stack with
  | [] => { r with root := node :: r.root }
  | frame :: frames => { r with stack := { frame with nodes := node :: frame.nodes } :: frames }

/-- Turns the pending text into a literal; between options it may only be blank and is dropped. -/
def Reader.flush (r : Reader) : Except TemplateFault Reader :=
  if r.pending.isEmpty then
    .ok r
  else
    let text := r.pending.reverse
    let r' := { r with pending := [] }
    if r.inOptions then
      if allBlank text then .ok r'
      else faultAt r.pendingAt (.invalidOptionTag .strayText)
    else
      .ok (r'.place (.literal (String.ofList text)))

def Reader.allowContent (r : Reader) : Except TemplateFault Unit :=
  if r.inOptions then faultAt r.offset (.invalidOptionTag .strayContent) else .ok ()

def Reader.openBlock (r : Reader) (block : Block) : Reader :=
  { r with stack := ⟨block, [], r.offset⟩ :: r.stack }

/-! ## 3. Conditionals -/

def Reader.turnElse (r : Reader) : Except TemplateFault Reader :=
  match r.stack with
  | ⟨.conditional condition none, nodes, openedAt⟩ :: frames =>
    .ok { r with stack := ⟨.conditional condition (some nodes.reverse), [], openedAt⟩ :: frames }
  | _ => faultAt r.offset .unexpectedElse

def Reader.closeIf (r : Reader) : Except TemplateFault Reader :=
  match r.stack with
  | [] => faultAt r.offset .unmatchedEndIf
  | ⟨.conditional condition (some thenBranch), nodes, _⟩ :: frames =>
    .ok ({ r with stack := frames }.place (.conditional condition thenBranch (some nodes.reverse)))
  | ⟨.conditional condition none, nodes, _⟩ :: frames =>
    .ok ({ r with stack := frames }.place (.conditional condition nodes.reverse none))
  | frame :: frames =>
    if frames.any Frame.isConditional then faultAt frame.openedAt .unclosedOptionGroup
    else faultAt r.offset .unmatchedEndIf

/-! ## 4. Option groups -/

/-- Opens a group and gives it the next number. -/
def Reader.openOptions (r : Reader) : Reader :=
  { r.openBlock (.options r.groups []) with groups := r.groups + 1 }

/-- Opens an option, which is allowed directly inside a group only. -/
def Reader.openOption (r : Reader) (attributes : List Char) : Except TemplateFault Reader :=
  if r.inOptions then
    match readOptionAttributes attributes with
    | .error fault => faultAt r.offset (.invalidOptionTag fault)
    | .ok (title, condition) => .ok (r.openBlock (.optionBody title condition))
  else
    faultAt r.offset (.invalidOptionTag .outsideGroup)

/-- Adds a closed option to the group that is now innermost. -/
def addOption (option : Choice Node) : List Frame → List Frame
  | ⟨.options index closed, nodes, openedAt⟩ :: frames =>
    ⟨.options index (option :: closed), nodes, openedAt⟩ :: frames
  | frames => frames

def Reader.closeOption (r : Reader) : Except TemplateFault Reader :=
  match r.stack with
  | ⟨.optionBody title condition, nodes, _⟩ :: frames =>
    .ok { r with stack := addOption ⟨title, condition, nodes.reverse⟩ frames }
  | ⟨.conditional .., _, openedAt⟩ :: _ => faultAt openedAt .unclosedConditional
  | _ => faultAt r.offset .unclosedOptionGroup

/-- Closes the innermost group, which must have an option. -/
def Reader.closeOptions (r : Reader) : Except TemplateFault Reader :=
  match r.stack with
  | ⟨.options index closed, _, openedAt⟩ :: frames =>
    if closed.isEmpty then faultAt openedAt (.invalidOptionTag .emptyGroup)
    else .ok ({ r with stack := frames }.place (.optionGroup index closed.reverse))
  | ⟨.conditional .., _, openedAt⟩ :: _ => faultAt openedAt .unclosedConditional
  | ⟨.optionBody .., _, openedAt⟩ :: _ => faultAt openedAt .unclosedOptionGroup
  | [] => faultAt r.offset .unclosedOptionGroup

/-! ## 5. The reading -/

/-- What a tag does once the text before it is placed. -/
def Reader.apply (r : Reader) : Tag → Except TemplateFault Reader
  | .openIf condition => do
    r.allowContent
    return r.openBlock (.conditional (String.ofList condition) none)
  | .turnElse => r.turnElse
  | .closeIf => r.closeIf
  | .variable name => do
    r.allowContent
    return r.place (.variable (String.ofList name))
  | .openOptions => do
    r.allowContent
    return r.openOptions
  | .closeOptions => r.closeOptions
  | .openOption attributes => r.openOption attributes
  | .bareOption => faultAt r.offset (.invalidOptionTag .missingTitle)
  | .closeOption => r.closeOption

/-- One piece.  A bare option tag is refused before the text in front of it is looked at. -/
def Reader.take (r : Reader) (piece : Piece) : Except TemplateFault Reader :=
  match piece with
  | .plain text => .ok { r.append text with offset := r.offset + text.length }
  | .tag source tag => do
    let r ← if tag = .bareOption then pure r else r.flush
    let r ← r.apply tag
    return { r with offset := r.offset + source.length }

/-- The end of the text: no block may be open. -/
def Reader.finish (r : Reader) : Except TemplateFault (List Node) :=
  match r.stack with
  | [] => do
    let r ← r.flush
    return r.root.reverse
  | frame :: _ =>
    faultAt frame.openedAt
      (if frame.isConditional then .unclosedConditional else .unclosedOptionGroup)

/-- The nodes of a template text, or the first fault. -/
def readTemplate (cs : List Char) : Except TemplateFault (List Node) := do
  let taken := pieces cs
  let r ← taken.items.foldlM Reader.take Reader.start
  match taken.fault with
  | some cause => faultAt r.offset cause
  | none => r.finish

/-- The template that a text writes, or where and why it writes none. -/
def Template.read (text : String) : Except TemplateError Template :=
  let cs := text.toList
  match readTemplate cs with
  | .ok nodes => .ok ⟨nodes⟩
  | .error fault => .error ⟨Position.ofOffset cs fault.offset, fault.cause⟩

end SeededText
