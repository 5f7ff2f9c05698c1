import SeededText.Text.Search
import SeededText.Ron.Basic

/-!
# Reading RON

Blanks are the space, the tab and the two line ends; comments run from `//` to the end of the line
or stand between `/*` and `*/`, nested; both may stand between any two parts.  Lists, maps and
groups allow one comma after the last part.  In front of the value a text may name extensions.

A group whose first part is a name followed by a colon has fields, and any other group has values.
The keyword `Some` takes the next value, in parentheses or not.  A raw text may follow it without
a gap, though the two then look like one name, and so may a number that begins with a point or a
sign.

The readers take text off the front and give what is left.  `fuel` bounds the calls.  Of three
calls one inside the other at least one takes a character, so what `RonText.read?` gives, more than
three times the length of the text, stays more than three times the length of what is left.
-/

namespace SeededText.Ron

/-- A reader: what it read from the front of the text and the text after it. -/
abbrev Read (α : Type) := List Char → Option (α × List Char)

/-! ## 1. Blanks and comments -/

/-- The four blank characters of the notation. -/
def isBlank (c : Char) : Bool :=
  c = ' ' || c = '\t' || c = '\n' || c = '\r'

/-- What stands between two parts of a text. -/
inductive Gap where
  | blanks
  /-- a comment up to the end of the line -/
  | line
  /-- a block comment; `depth` further comments are open around it -/
  | block (depth : Nat)

/-- The text after the rest of a gap; a slash that begins no comment is refused, and so is a block
comment that is never closed. -/
def skipGap : Gap → List Char → Option (List Char)
  | .blanks, '/' :: '/' :: cs => skipGap .line cs
  | .blanks, '/' :: '*' :: cs => skipGap (.block 0) cs
  | .blanks, '/' :: _ => none
  | .blanks, c :: cs => if isBlank c then skipGap .blanks cs else some (c :: cs)
  | .blanks, [] => some []
  | .line, '\n' :: cs => skipGap .blanks cs
  | .line, _ :: cs => skipGap .line cs
  | .line, [] => some []
  | .block depth, '/' :: '*' :: cs => skipGap (.block (depth + 1)) cs
  | .block 0, '*' :: '/' :: cs => skipGap .blanks cs
  | .block (depth + 1), '*' :: '/' :: cs => skipGap (.block depth) cs
  | .block depth, _ :: cs => skipGap (.block depth) cs
  | .block _, [] => none

/-- The text after blanks and comments. -/
def skip (cs : List Char) : Option (List Char) :=
  skipGap .blanks cs

/-! ## 2. Texts in quotes -/

/-- The number that `value` becomes with at most `n` more hexadecimal digits. -/
def readHexUpTo : Nat → Nat → List Char → Nat × List Char
  | 0, value, cs => (value, cs)
  | n + 1, value, cs =>
    match cs with
    | [] => (value, [])
    | c :: rest =>
      match anyDigit? c with
      | some digit => readHexUpTo n (16 * value + digit) rest
      | none => (value, cs)

/-- The character with a code point, if there is one. -/
def charOf? (n : Nat) : Option Char :=
  if h : n.isValidChar then some (Char.ofNatAux n h) else none

def readEscape : Read Char
  | '\'' :: rest => some ('\'', rest)
  | '"' :: rest => some ('"', rest)
  | '\\' :: rest => some ('\\', rest)
  | 'n' :: rest => some ('\n', rest)
  | 'r' :: rest => some ('\r', rest)
  | 't' :: rest => some ('\t', rest)
  | '0' :: rest => some ('\x00', rest)
  | 'x' :: a :: b :: rest => do
    let a ← anyDigit? a
    let b ← anyDigit? b
    let c ← charOf? (16 * a + b)
    return (c, rest)
  | 'u' :: '\x7b' :: first :: rest => do
    let first ← anyDigit? first
    match readHexUpTo 5 first rest with
    | (value, '\x7d' :: after) => (charOf? value).map fun c => (c, after)
    | _ => none
  | _ => none

/-- The rest of a quoted text after its opening quote. -/
def readChars : Nat → Read (List Char)
  | 0, _ => none
  | fuel + 1, cs =>
    match cs with
    | [] => none
    | '"' :: rest => some ([], rest)
    | '\\' :: rest => do
      let (c, rest) ← readEscape rest
      let (text, rest) ← readChars fuel rest
      return (c :: text, rest)
    | c :: rest => do
      let (text, rest) ← readChars fuel rest
      return (c :: text, rest)

/-- A quoted text after its opening quote. -/
def readString (fuel : Nat) : Read String := fun cs => do
  let (text, rest) ← readChars fuel cs
  return (String.ofList text, rest)

/-- A raw text after the letter `r`: hashes, a quote, any characters, a quote, as many hashes. -/
def readRawString : Read String := fun cs =>
  let hashes := cs.takeWhile fun c => c = '#'
  match cs.dropWhile fun c => c = '#' with
  | '"' :: rest =>
    (Text.cut? ('"' :: hashes) rest).map fun (text, rest) => (String.ofList text, rest)
  | _ => none

/-- A character in single quotes, after the first of them. -/
def readCharacter : Read Char
  | '\\' :: rest => do
    let (c, rest) ← readEscape rest
    match rest with
    | '\'' :: rest => some (c, rest)
    | _ => none
  | c :: '\'' :: rest => if c = '\'' then none else some (c, rest)
  | _ => none

/-! ## 3. Words and names -/

def readWord : Read (List Char) := fun cs =>
  let run := cs.takeWhile isWordChar
  if run.isEmpty then none else some (run, cs.dropWhile isWordChar)

/-- A word or a raw name; the flag says that it is raw. -/
def readWordOrRaw : Read (List Char × Bool) := fun cs =>
  match cs with
  | 'r' :: '#' :: rest =>
    (readWord rest).map fun (name, rest) => ((name, true), rest)
  | _ => (readWord cs).map fun (name, rest) => ((name, false), rest)

/-- A name, raw or not. -/
def readName : Read RonName := fun cs => do
  let ((text, raw), rest) ← readWordOrRaw cs
  if raw || isName text then return (⟨text, raw⟩, rest) else none

/-- The name of a field and the colon after it. -/
def readLabel : Read (List Char) := fun cs => do
  let (name, rest) ← readName cs
  match ← skip rest with
  | ':' :: rest => return (name.text, rest)
  | _ => none

/-- The text begins with a raw text. -/
def startsRawString : List Char → Bool
  | 'r' :: '"' :: _ => true
  | 'r' :: '#' :: rest =>
    match rest with
    | '"' :: _ => true
    | '#' :: _ => true
    | _ => false
  | _ => false

/-- A raw text without its first letter may begin here. -/
def startsJoined : List Char → Bool
  | c :: _ => c = '"' || c = '#'
  | [] => false

/-- The number in a word that is the keyword `Some` and a number that begins with a point or a
sign. -/
def numberAfterSome? : List Char → Option (List Char)
  | 'S' :: 'o' :: 'm' :: 'e' :: c :: cs => if isNameRest c then none else some (c :: cs)
  | _ => none

/-! ## 4. Values -/

/-- After a part: a comma and the text after it, or nothing if there is no comma. -/
def readComma? : List Char → Option (List Char)
  | ',' :: rest => some rest
  | _ => none

mutual

/-- A value that begins at the front of the text. -/
def readValue : Nat → Read Ron
  | 0, _ => none
  | fuel + 1, cs =>
    if startsRawString cs then
      (readRawString (cs.drop 1)).map fun (text, rest) => (.string text, rest)
    else
      match cs with
      | '"' :: rest => (readString fuel rest).map fun (text, rest) => (.string text, rest)
      | '\'' :: rest => (readCharacter rest).map fun (c, rest) => (.char c, rest)
      | '[' :: rest => do
        let rest ← skip rest
        let (items, rest) ← readItems fuel ']' rest
        return (.list items, rest)
      | '\x7b' :: rest => do
        let rest ← skip rest
        let (entries, rest) ← readEntries fuel rest
        return (.map entries, rest)
      | '(' :: ')' :: rest => some (.unit, rest)
      | '(' :: rest => readGroup fuel none rest
      | _ => do
        let ((text, raw), rest) ← readWordOrRaw cs
        if raw || isName text then
          let after ← skip rest
          match after with
          | '(' :: rest => readGroup fuel (some ⟨text, raw⟩) rest
          | _ =>
            if raw then
              return (.rawName text, rest)
            else if text = ['S', 'o', 'm', 'e'] then
              (readValue fuel after).map fun (value, rest) => (.bareSome false value, rest)
            else if text = ['S', 'o', 'm', 'e', 'r'] && startsJoined rest then
              (readRawString rest).map fun (text, rest) => (.bareSome true (.string text), rest)
            else
              return (.word text, rest)
        else
          match numberAfterSome? text with
          | some number => return (.bareSome false (.word number), rest)
          | none => return (.word text, rest)

/-- The inside of a group after its opening parenthesis. -/
def readGroup : Nat → Option RonName → Read Ron
  | 0, _, _ => none
  | fuel + 1, name, cs => do
    let cs ← skip cs
    if (readLabel cs).isSome then
      let (fields, rest) ← readFields fuel cs
      return (.record name fields, rest)
    else
      let (items, rest) ← readItems fuel ')' cs
      return (.tuple name items, rest)

/-- Values up to a closing character, commas between them. -/
def readItems : Nat → Char → Read (List Ron)
  | 0, _, _ => none
  | fuel + 1, close, cs =>
    match cs with
    | [] => none
    | c :: rest =>
      if c = close then
        some ([], rest)
      else do
        let (item, rest) ← readValue fuel cs
        let rest ← skip rest
        match readComma? rest with
        | some rest => do
          let rest ← skip rest
          let (items, rest) ← readItems fuel close rest
          return (item :: items, rest)
        | none =>
          match rest with
          | c :: rest => if c = close then some ([item], rest) else none
          | [] => none

/-- Keys with values up to the end of a map, commas between them. -/
def readEntries : Nat → Read (List (Ron × Ron))
  | 0, _ => none
  | fuel + 1, cs =>
    match cs with
    | '\x7d' :: rest => some ([], rest)
    | _ => do
      let (key, rest) ← readValue fuel cs
      match ← skip rest with
      | ':' :: rest => do
        let rest ← skip rest
        let (value, rest) ← readValue fuel rest
        let rest ← skip rest
        match readComma? rest with
        | some rest => do
          let rest ← skip rest
          let (entries, rest) ← readEntries fuel rest
          return ((key, value) :: entries, rest)
        | none =>
          match rest with
          | '\x7d' :: rest => some ([(key, value)], rest)
          | _ => none
      | _ => none

/-- Fields up to the end of a group, commas between them. -/
def readFields : Nat → Read (List (List Char × Ron))
  | 0, _ => none
  | fuel + 1, cs =>
    match cs with
    | ')' :: rest => some ([], rest)
    | _ => do
      let (label, rest) ← readLabel cs
      let rest ← skip rest
      let (value, rest) ← readValue fuel rest
      let rest ← skip rest
      match readComma? rest with
      | some rest => do
        let rest ← skip rest
        let (fields, rest) ← readFields fuel rest
        return ((label, value) :: fields, rest)
      | none =>
        match rest with
        | ')' :: rest => some ([(label, value)], rest)
        | _ => none

end

/-! ## 5. Whole texts -/

/-- The extensions that a text may ask for. -/
inductive Extension where
  | unwrapNewtypes
  | implicitSome
  | unwrapVariantNewtypes
deriving DecidableEq, Repr

/-- The extension with a name. -/
def Extension.ofName? (name : List Char) : Option Extension :=
  if name = "unwrap_newtypes".toList then some .unwrapNewtypes
  else if name = "implicit_some".toList then some .implicitSome
  else if name = "unwrap_variant_newtypes".toList then some .unwrapVariantNewtypes
  else none

/-- The given characters, with blanks and comments skipped after them. -/
def expect (mark : List Char) (cs : List Char) : Option (List Char) := do
  let rest ← Text.stripFront? mark cs
  skip rest

/-- The extensions of an attribute up to its closing parenthesis; at least one. -/
def readExtensions : Nat → Read (List Extension)
  | 0, _ => none
  | fuel + 1, cs => do
    let (name, rest) ← readName cs
    let extension ← Extension.ofName? name.text
    let rest ← skip rest
    match readComma? rest with
    | some rest => do
      let rest ← skip rest
      match rest with
      | ')' :: rest => return ([extension], rest)
      | _ => do
        let (extensions, rest) ← readExtensions fuel rest
        return (extension :: extensions, rest)
    | none =>
      match rest with
      | ')' :: rest => return ([extension], rest)
      | _ => none

/-- The extensions that the attributes in front of a value ask for. -/
def readAttributes : Nat → Read (List Extension)
  | 0, _ => none
  | fuel + 1, cs =>
    match cs with
    | '#' :: _ => do
      let rest ← expect ['#'] cs
      let rest ← expect ['!'] rest
      let rest ← expect ['['] rest
      let rest ← expect "enable".toList rest
      let rest ← expect ['('] rest
      let (extensions, rest) ← readExtensions fuel rest
      let rest ← skip rest
      let rest ← expect [']'] rest
      let (others, rest) ← readAttributes fuel rest
      return (extensions ++ others, rest)
    | _ => some ([], cs)

end Ron

/-- The value that a text writes, if it writes one. -/
def RonText.read? (text : String) : Option RonText := do
  let cs := text.toList
  let fuel := 3 * cs.length + 4
  let cs ← Ron.skip cs
  let (extensions, cs) ← Ron.readAttributes fuel cs
  let (value, rest) ← Ron.readValue fuel cs
  let rest ← Ron.skip rest
  if rest.isEmpty then some ⟨extensions.contains .implicitSome, value⟩ else none

end SeededText
