import SeededText.Json.Basic

/-!
# Writing JSON

The compact form: no blanks, the fields of an object in their order, strings with the quote, the
backslash and the control characters escaped and everything else as it is.  A number is written
as what it is worth.  What has no form of its own, an unreadable value or a number beyond all
doubles, is written as null.
-/

namespace SeededText.Json

def hexDigit (n : Nat) : Char :=
  Nat.digitChar n

/-- A character as it stands inside a string. -/
def escapeChar (c : Char) : List Char :=
  if c = '"' then ['\\', '"']
  else if c = '\\' then ['\\', '\\']
  else if c = '\x08' then ['\\', 'b']
  else if c = '\t' then ['\\', 't']
  else if c = '\n' then ['\\', 'n']
  else if c = '\x0c' then ['\\', 'f']
  else if c = '\r' then ['\\', 'r']
  else if c.toNat < 0x20 then
    ['\\', 'u', '0', '0', hexDigit (c.toNat / 16), hexDigit (c.toNat % 16)]
  else [c]

def renderString (text : String) : String :=
  "\"" ++ String.ofList (text.toList.flatMap escapeChar) ++ "\""

/-- A number by what it is worth. -/
def renderNumeral (n : Numeral) : String :=
  match n.quantity? with
  | some quantity => quantity.display
  | none => "null"

mutual

/-- The compact form of a value. -/
def render : Json → String
  | .null => "null"
  | .bool true => "true"
  | .bool false => "false"
  | .number n => renderNumeral n
  | .string text => renderString text
  | .array items => "[" ++ renderItems items ++ "]"
  | .object fields => "\x7b" ++ renderFields fields ++ "\x7d"
  | .unreadable => "null"

def renderItems : List Json → String
  | [] => ""
  | [item] => render item
  | item :: items => render item ++ "," ++ renderItems items

def renderFields : List (String × Json) → String
  | [] => ""
  | [(key, value)] => renderString key ++ ":" ++ render value
  | (key, value) :: fields => renderString key ++ ":" ++ render value ++ "," ++ renderFields fields

end

/-! ## Free values

A value that is kept without a schema: of two fields with one key the later counts, fields are in
the order of their keys, every number must be one that a double can hold, and nothing in it may be
unreadable. -/

/-- Puts a field among fields that are in the order of their keys. -/
def insertField (key : String) (value : Json) : List (String × Json) → List (String × Json)
  | [] => [(key, value)]
  | (k, v) :: rest =>
    if key = k then (key, value) :: rest
    else if key < k then (key, value) :: (k, v) :: rest
    else (k, v) :: insertField key value rest

mutual

/-- The free value that a written one stands for, if there is one. -/
def settle? : Json → Option Json
  | .null => some .null
  | .bool value => some (.bool value)
  | .number n => if n.quantity?.isSome then some (.number n) else none
  | .string text => some (.string text)
  | .array items => (settleItems? items).map .array
  | .object fields => (settleFields? [] fields).map .object
  | .unreadable => none

def settleItems? : List Json → Option (List Json)
  | [] => some []
  | item :: items => do
    let item ← settle? item
    let items ← settleItems? items
    return item :: items

/-- The fields so far and the free values of more fields. -/
def settleFields? (sorted : List (String × Json)) :
    List (String × Json) → Option (List (String × Json))
  | [] => some sorted
  | (key, value) :: fields => do
    let value ← settle? value
    settleFields? (insertField key value sorted) fields

end

end SeededText.Json
