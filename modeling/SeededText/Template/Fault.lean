import SeededText.Text.Position

/-!
# Faults of a template text

A text that is no template is refused with a position and a cause.  Causes are kept apart from
their wording: `message` is the only place where the words stand.
-/

namespace SeededText

/-- What is wrong with an option tag, or with what stands between option tags. -/
inductive OptionFault where
  | missingClose
  | missingTitle
  /-- the tag does not stand directly in an options group -/
  | outsideGroup
  | emptyGroup
  /-- literal text stands between options -/
  | strayText
  /-- a variable, a conditional or a group stands between options -/
  | strayContent
  /-- what is left of the attributes holds no equals sign -/
  | expectedAttribute (found : String)
  /-- the text before the equals sign is no single word -/
  | malformedName (name : String)
  | unquotedValue (name : String)
  | unterminatedValue (name : String)
  | unknownAttribute (name : String)
  | duplicateAttribute (name : String)
  /-- a value is followed by a character that is not blank -/
  | unseparated
deriving DecidableEq, Repr

/-- Why a text is no template. -/
inductive TemplateCause where
  | unterminatedVariable
  /-- a conditional is never closed, or another block is closed over it -/
  | unclosedConditional
  /-- an else tag where no then-branch is open -/
  | unexpectedElse
  | unmatchedEndIf
  | invalidOptionTag (fault : OptionFault)
  /-- option tags do not nest -/
  | unclosedOptionGroup
deriving DecidableEq, Repr

/-- A cause and the offset, in characters, of the tag or text at fault. -/
structure TemplateFault where
  offset : Nat
  cause : TemplateCause
deriving DecidableEq, Repr

/-- A refused template text: where and why. -/
structure TemplateError where
  position : Text.Position
  cause : TemplateCause
deriving DecidableEq, Repr

/-! ## Wording -/

def OptionFault.message : OptionFault → String
  | .missingClose => "tag is missing its closing ']]'"
  | .missingTitle => "missing title attribute"
  | .outsideGroup => "option tag outside of an options group"
  | .emptyGroup => "options group contains no options"
  | .strayText => "text between options must be inside an option"
  | .strayContent => "content between options must be inside an option"
  | .expectedAttribute found => "expected key=\"value\", found '" ++ found ++ "'"
  | .malformedName name => "malformed attribute name '" ++ name ++ "'"
  | .unquotedValue name => "value of '" ++ name ++ "' must be double-quoted"
  | .unterminatedValue name => "unterminated value for '" ++ name ++ "'"
  | .unknownAttribute name => "unknown attribute '" ++ name ++ "'"
  | .duplicateAttribute name => "duplicate attribute '" ++ name ++ "'"
  | .unseparated => "attributes must be separated by whitespace"

def TemplateCause.message : TemplateCause → String
  | .unterminatedVariable => "unterminated tag: '\x7b\x7b' without a closing '\x7d\x7d'"
  | .unclosedConditional => "conditional block is never closed with '\x7b\x7b/if\x7d\x7d'"
  | .unexpectedElse => "'\x7b\x7belse\x7d\x7d' outside of an open conditional block"
  | .unmatchedEndIf =>
    "'\x7b\x7b/if\x7d\x7d' without a matching '\x7b\x7b#if\x7d\x7d'"
  | .invalidOptionTag fault => "invalid option tag: " ++ fault.message
  | .unclosedOptionGroup => "option tags are not properly opened and closed"

def TemplateError.message (e : TemplateError) : String :=
  s!"template parse error at line {e.position.line}, column {e.position.column}: "
    ++ e.cause.message

end SeededText
