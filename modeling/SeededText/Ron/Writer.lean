import SeededText.Text.Printable
import SeededText.Decimal.Layout

/-!
# Writing RON

The compact form: no blanks and no names in front of groups of fields.  Inside quotes the usual
escapes stand for the zero character, the tab, the two line ends, the backslash and both quotes;
every other character that is not printable is written as its code point in hexadecimal.
-/

namespace SeededText.Ron

/-- A character as it stands inside quotes. -/
def escapeChar (c : Char) : List Char :=
  if c = '\x00' then ['\\', '0']
  else if c = '\t' then ['\\', 't']
  else if c = '\r' then ['\\', 'r']
  else if c = '\n' then ['\\', 'n']
  else if c = '\\' then ['\\', '\\']
  else if c = '"' then ['\\', '"']
  else if c = '\'' then ['\\', '\'']
  else if Text.isPrintable c then [c]
  else ['\\', 'u', '\x7b'] ++ Nat.toDigits 16 c.toNat ++ ['\x7d']

def renderText (text : String) : String :=
  "\"" ++ String.ofList (text.toList.flatMap escapeChar) ++ "\""

def renderOptional : Option String → String
  | none => "None"
  | some inner => "Some(" ++ inner ++ ")"

def renderList (parts : List String) : String :=
  "[" ++ ",".intercalate parts ++ "]"

def renderRecord (fields : List (String × String)) : String :=
  "(" ++ ",".intercalate (fields.map fun (key, part) => key ++ ":" ++ part) ++ ")"

end SeededText.Ron
