import SeededText.Json.Basic

/-!
# Reading JSON

The grammar of RFC 8259, strictly: four blank characters, no control character inside a string,
no needless zero in front of a number, no comma at the end of an array or object, nothing but
blanks after the value.

The grammar allows more than a reader of values takes: an escaped surrogate without its other
half, and arrays and objects more than 127 deep.  Such a value is `Json.unreadable`.  The text
around it stays good, so that it does no harm in a place that nobody asks about.

The readers take text off the front and give what is left.  Two numbers go down with the calls:
`depth` counts the levels left and is part of the rule; `fuel` bounds the calls and is not, since
of two calls one inside the other at least one takes a character: what `Json.read?` gives is more
than twice the length of the text, and it stays more than twice the length of what is left.
-/

namespace SeededText.Json

/-- A reader: what it read from the front of the text and the text after it. -/
abbrev Read (α : Type) := List Char → Option (α × List Char)

/-- The four blank characters of JSON. -/
def isBlank (c : Char) : Bool :=
  c = ' ' || c = '\t' || c = '\n' || c = '\r'

/-- The text without the blanks in front. -/
def skipBlanks (cs : List Char) : List Char :=
  cs.dropWhile isBlank

/-- How deep arrays and objects may nest. -/
def depthLimit : Nat := 127

/-! ## 1. Strings -/

def hexDigit? (c : Char) : Option Nat :=
  if '0' ≤ c ∧ c ≤ '9' then some (c.toNat - '0'.toNat)
  else if 'a' ≤ c ∧ c ≤ 'f' then some (c.toNat - 'a'.toNat + 10)
  else if 'A' ≤ c ∧ c ≤ 'F' then some (c.toNat - 'A'.toNat + 10)
  else none

def readHex : Read Nat
  | a :: b :: c :: d :: rest => do
    let a ← hexDigit? a
    let b ← hexDigit? b
    let c ← hexDigit? c
    let d ← hexDigit? d
    return (((a * 16 + b) * 16 + c) * 16 + d, rest)
  | _ => none

/-- The character after a backslash and the letter `u`: one unit, or two that are a pair; half of a
pair is read and is no character. -/
def readUnit : Read (Option Char) := fun cs => do
  let (unit, rest) ← readHex cs
  if 0xD800 ≤ unit ∧ unit < 0xDC00 then
    match rest with
    | '\\' :: 'u' :: more =>
      match readHex more with
      | some (low, after) =>
        if 0xDC00 ≤ low ∧ low < 0xE000 then
          return (some (Char.ofNat (0x10000 + (unit - 0xD800) * 0x400 + (low - 0xDC00))), after)
        else
          return (none, rest)
      | none => none
    | _ => return (none, rest)
  else if 0xDC00 ≤ unit ∧ unit < 0xE000 then
    return (none, rest)
  else
    return (some (Char.ofNat unit), rest)

def readEscape : Read (Option Char)
  | '"' :: rest => some (some '"', rest)
  | '\\' :: rest => some (some '\\', rest)
  | '/' :: rest => some (some '/', rest)
  | 'b' :: rest => some (some '\x08', rest)
  | 'f' :: rest => some (some '\x0c', rest)
  | 'n' :: rest => some (some '\n', rest)
  | 'r' :: rest => some (some '\r', rest)
  | 't' :: rest => some (some '\t', rest)
  | 'u' :: rest => readUnit rest
  | _ => none

/-- The rest of a string after its opening quote; nothing for a string that is no text. -/
def readChars : Nat → Read (Option (List Char))
  | 0, _ => none
  | fuel + 1, cs =>
    match cs with
    | [] => none
    | '"' :: rest => some (some [], rest)
    | '\\' :: rest => do
      let (c, rest) ← readEscape rest
      let (text, rest) ← readChars fuel rest
      return (c.bind fun c => text.map (c :: ·), rest)
    | c :: rest =>
      if c.toNat < 0x20 then
        none
      else do
        let (text, rest) ← readChars fuel rest
        return (text.map (c :: ·), rest)

/-- A string after its opening quote; nothing for a string that is no text. -/
def readString (fuel : Nat) : Read (Option String) := fun cs => do
  let (text, rest) ← readChars fuel cs
  return (text.map String.ofList, rest)

/-! ## 2. Numbers -/

/-- A non-empty run of digits. -/
def readDigits : Read (List Char) := fun cs =>
  let digits := cs.takeWhile Decimal.isDigit
  if digits.isEmpty then none else some (digits, cs.dropWhile Decimal.isDigit)

/-- The digits in front of the point: a single zero, or no zero first. -/
def readWhole : Read (List Char) := fun cs => do
  let (digits, rest) ← readDigits cs
  if digits.head? = some '0' ∧ digits.length ≠ 1 then none else return (digits, rest)

/-- The digits after the point, if there is a point. -/
def readFraction : Read (List Char)
  | '.' :: rest => readDigits rest
  | cs => some ([], cs)

/-- The exponent, if there is one. -/
def readExponent : Read (Option (Bool × List Char)) := fun cs =>
  match cs with
  | c :: rest =>
    if c = 'e' ∨ c = 'E' then
      match rest with
      | '-' :: rest => (readDigits rest).map fun (digits, rest) => (some (true, digits), rest)
      | '+' :: rest => (readDigits rest).map fun (digits, rest) => (some (false, digits), rest)
      | _ => (readDigits rest).map fun (digits, rest) => (some (false, digits), rest)
    else
      some (none, cs)
  | [] => some (none, [])

def readNumeral : Read Numeral := fun cs => do
  let (negative, cs) :=
    match cs with
    | '-' :: rest => (true, rest)
    | _ => (false, cs)
  let (whole, cs) ← readWhole cs
  let (fraction, cs) ← readFraction cs
  let (exponent, cs) ← readExponent cs
  return (⟨negative, whole, fraction, exponent⟩, cs)

/-! ## 3. Values -/

/-- The value that a string is. -/
def ofString : Option String → Json
  | some text => .string text
  | none => .unreadable

/-- The value that items in brackets are, with so many levels left for it. -/
def ofItems (depth : Nat) (items : List Json) : Json :=
  if depth = 0 then .unreadable else .array items

/-- The value that fields in braces are, with so many levels left for it. -/
def ofFields (depth : Nat) (fields : List (Option String × Json)) : Json :=
  if depth = 0 then
    .unreadable
  else
    match fields.mapM fun (key, value) => key.map fun key => (key, value) with
    | some fields => .object fields
    | none => .unreadable

mutual

/-- A value, blanks in front of it skipped. -/
def readValue : (fuel depth : Nat) → Read Json
  | 0, _, _ => none
  | fuel + 1, depth, cs =>
    match skipBlanks cs with
    | 'n' :: 'u' :: 'l' :: 'l' :: rest => some (.null, rest)
    | 't' :: 'r' :: 'u' :: 'e' :: rest => some (.bool true, rest)
    | 'f' :: 'a' :: 'l' :: 's' :: 'e' :: rest => some (.bool false, rest)
    | '"' :: rest => (readString fuel rest).map fun (text, rest) => (ofString text, rest)
    | '[' :: rest =>
      match skipBlanks rest with
      | ']' :: rest => some (ofItems depth [], rest)
      | rest => (readItems fuel (depth - 1) rest).map fun (items, rest) => (ofItems depth items, rest)
    | '\x7b' :: rest =>
      match skipBlanks rest with
      | '\x7d' :: rest => some (ofFields depth [], rest)
      | rest =>
        (readFields fuel (depth - 1) rest).map fun (fields, rest) => (ofFields depth fields, rest)
    | cs => (readNumeral cs).map fun (numeral, rest) => (.number numeral, rest)

/-- The items of an array up to its end; at least one. -/
def readItems : (fuel depth : Nat) → Read (List Json)
  | 0, _, _ => none
  | fuel + 1, depth, cs => do
    let (item, rest) ← readValue fuel depth cs
    match skipBlanks rest with
    | ']' :: rest => some ([item], rest)
    | ',' :: rest => do
      let (items, rest) ← readItems fuel depth rest
      return (item :: items, rest)
    | _ => none

/-- The fields of an object up to its end; at least one. -/
def readFields : (fuel depth : Nat) → Read (List (Option String × Json))
  | 0, _, _ => none
  | fuel + 1, depth, cs => do
    match skipBlanks cs with
    | '"' :: rest => do
      let (key, rest) ← readString fuel rest
      match skipBlanks rest with
      | ':' :: rest => do
        let (value, rest) ← readValue fuel depth rest
        match skipBlanks rest with
        | '\x7d' :: rest => some ([(key, value)], rest)
        | ',' :: rest => do
          let (fields, rest) ← readFields fuel depth rest
          return ((key, value) :: fields, rest)
        | _ => none
      | _ => none
    | _ => none

end

end Json

/-- The value that a text writes, if it writes one. -/
def Json.read? (text : String) : Option Json := do
  let cs := text.toList
  let (value, rest) ← Json.readValue (2 * cs.length + 2) Json.depthLimit cs
  if (Json.skipBlanks rest).isEmpty then some value else none

end SeededText
