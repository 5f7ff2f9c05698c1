import SeededText.Decimal.Numeral

/-!
# RON values

The notation RON as written: quoted texts, lists, maps, groups in parentheses with or without
a name, and words, which are numbers, names and keywords alike until a reader knows what it
expects.  The module also answers what a word is worth as a number.

A name written with `r#` in front is raw: it is the same name, and never a keyword.
-/

namespace SeededText

/-- A name in front of a group or as a value of its own. -/
structure RonName where
  text : List Char
  raw : Bool
deriving DecidableEq, Repr

/-- A value of the notation. -/
inductive Ron where
  /-- a run of letters, digits, underscores, points and signs -/
  | word (text : List Char)
  /-- a name that is marked as no keyword -/
  | rawName (text : List Char)
  /-- the keyword `Some` and a value without parentheses; `joined` says that the value is a raw
  text whose first letter follows the keyword directly -/
  | bareSome (joined : Bool) (value : Ron)
  | string (text : String)
  | char (c : Char)
  | list (items : List Ron)
  | map (entries : List (Ron × Ron))
  /-- an opening and a closing parenthesis without a gap and without a name -/
  | unit
  /-- values in parentheses, perhaps after a name; there may be none -/
  | tuple (name : Option RonName) (items : List Ron)
  /-- fields in parentheses, perhaps after a name; at least one -/
  | record (name : Option RonName) (fields : List (List Char × Ron))
deriving Repr

/-- A whole text: its value, and whether it allows that the value of an optional field stands
without parentheses and without its keyword. -/
structure RonText where
  implicitSome : Bool
  value : Ron
deriving Repr

/-! ## 1. Words -/

def isNameStart (c : Char) : Bool :=
  ('a' ≤ c && c ≤ 'z') || ('A' ≤ c && c ≤ 'Z') || c = '_'

def isNameRest (c : Char) : Bool :=
  isNameStart c || Decimal.isDigit c

def isWordChar (c : Char) : Bool :=
  isNameRest c || c = '.' || c = '+' || c = '-'

def isName : List Char → Bool
  | [] => false
  | c :: cs => isNameStart c && cs.all isNameRest

/-! ## 2. Integers -/

/-- The value of a digit in any base up to sixteen. -/
def anyDigit? (c : Char) : Option Nat :=
  if '0' ≤ c ∧ c ≤ '9' then some (c.toNat - '0'.toNat)
  else if 'a' ≤ c ∧ c ≤ 'f' then some (c.toNat - 'a'.toNat + 10)
  else if 'A' ≤ c ∧ c ≤ 'F' then some (c.toNat - 'A'.toNat + 10)
  else none

/-- The number that digits of a base write, underscores between them skipped. -/
def foldBase? (base value : Nat) : List Char → Option Nat
  | [] => some value
  | c :: cs =>
    if c = '_' then
      foldBase? base value cs
    else
      match anyDigit? c with
      | none => none
      | some digit => if digit < base then foldBase? base (base * value + digit) cs else none

/-- The base that a word's first characters name, and the digits after them. -/
def splitBase : List Char → Nat × List Char
  | '0' :: 'x' :: cs => (16, cs)
  | '0' :: 'o' :: cs => (8, cs)
  | '0' :: 'b' :: cs => (2, cs)
  | cs => (10, cs)

/-- The word as a natural number; a number begins with a digit, not with an underscore. -/
def readWordNatural? (word : List Char) : Option Nat :=
  let (base, digits) := splitBase word
  match digits with
  | [] => none
  | '_' :: _ => none
  | _ => foldBase? base 0 digits

/-- The word as a natural number below `2 ^ 64`. -/
def readWordIndex? (word : List Char) : Option Nat :=
  (readWordNatural? word).filter fun n => n < Decimal.wordCount

/-! ## 3. Doubles -/

/-- The character may stand in the numeral of a double. -/
def isFloatChar (c : Char) : Bool :=
  Decimal.isDigit c || c = 'e' || c = 'E' || c = '.' || c = '+' || c = '-'

/-- The word as one of the two doubles that have names. -/
def readNamedFloat? (word : List Char) : Option Float :=
  if word = ['i', 'n', 'f'] then some (1 / 0)
  else if word = ['N', 'a', 'N'] then some (0 / 0)
  else none

/-- The word as a double: a decimal numeral, or a name with or without a sign. -/
def readWordFloat? (word : List Char) : Option Float :=
  let named :=
    match word with
    | '+' :: rest => readNamedFloat? rest
    | '-' :: rest => (readNamedFloat? rest).map fun x => -x
    | _ => readNamedFloat? word
  match named with
  | some x => some x
  | none => if word.all isFloatChar then Decimal.readFloat? word else none

/-- The word as an integer of 64 bits, signed if it has a sign in front. -/
def isWordInteger (word : List Char) : Bool :=
  match word with
  | '+' :: rest => ((readWordNatural? rest).filter fun n => n < Decimal.halfCount).isSome
  | '-' :: rest => ((readWordNatural? rest).filter fun n => n ≤ Decimal.halfCount).isSome
  | _ => (readWordIndex? word).isSome

/-! ## 4. Free values

A value in a place that no reader asks about has only to be a value: a keyword, a name, a number
or text, or a list, map or group of free values. -/

/-- The word is a keyword, a name or a number. -/
def isFreeWord (word : List Char) : Bool :=
  isName word || isWordInteger word || (readWordFloat? word).isSome

/-- The name may stand in front of a group of free values; a keyword may not. -/
def mayLead : Option RonName → Bool
  | none => true
  | some name =>
    name.raw || !(name.text = ['t', 'r', 'u', 'e'] || name.text = ['f', 'a', 'l', 's', 'e']
      || name.text = ['N', 'o', 'n', 'e'] || name.text = ['i', 'n', 'f']
      || name.text = ['N', 'a', 'N'])

/-- The name is the keyword for a value that is there. -/
def isSomeKeyword : Option RonName → Bool
  | none => false
  | some name => !name.raw && name.text = ['S', 'o', 'm', 'e']

mutual

/-- The value is a free value. -/
def Ron.isFree (implicitSome : Bool) : Ron → Bool
  | .word text => isFreeWord text
  | .rawName _ => true
  | .bareSome joined value => implicitSome && !joined && value.isFree implicitSome
  | .string _ => true
  | .char _ => true
  | .list items => Ron.areFree implicitSome items
  | .map entries => Ron.entriesFree implicitSome entries
  | .unit => true
  | .tuple name items =>
    mayLead name && (!isSomeKeyword name || items.length = 1) && Ron.areFree implicitSome items
  | .record name fields =>
    mayLead name && !isSomeKeyword name && Ron.fieldsFree implicitSome fields

def Ron.areFree (implicitSome : Bool) : List Ron → Bool
  | [] => true
  | item :: items => item.isFree implicitSome && Ron.areFree implicitSome items

def Ron.entriesFree (implicitSome : Bool) : List (Ron × Ron) → Bool
  | [] => true
  | (key, value) :: entries =>
    key.isFree implicitSome && value.isFree implicitSome && Ron.entriesFree implicitSome entries

def Ron.fieldsFree (implicitSome : Bool) : List (List Char × Ron) → Bool
  | [] => true
  | (_, value) :: fields => value.isFree implicitSome && Ron.fieldsFree implicitSome fields

end

/-! ## 5. Levels

Reading a value spends levels while it is inside: one for a list, a map or a group, one more for
each part of it, and one for a value that is marked as there.  A text may spend
`Ron.levelLimit` levels in all. -/

/-- How many levels a text may spend. -/
def Ron.levelLimit : Nat := 128

/-- The levels that a group spends for itself. -/
def groupLevels (name : Option RonName) : Nat :=
  if isSomeKeyword name then 0 else 1

mutual

/-- The levels that a free value spends. -/
def Ron.levels : Ron → Nat
  | .word _ | .rawName _ | .string _ | .char _ | .unit => 0
  | .bareSome _ value => value.levels + 1
  | .list items => Ron.itemLevels items + 1
  | .map entries => Ron.entryLevels entries + 1
  | .tuple name items => Ron.itemLevels items + groupLevels name
  | .record name fields => Ron.fieldLevels fields + groupLevels name

def Ron.itemLevels : List Ron → Nat
  | [] => 0
  | item :: items => max (item.levels + 1) (Ron.itemLevels items)

def Ron.entryLevels : List (Ron × Ron) → Nat
  | [] => 0
  | (key, value) :: entries =>
    max (max key.levels value.levels + 1) (Ron.entryLevels entries)

def Ron.fieldLevels : List (List Char × Ron) → Nat
  | [] => 0
  | (_, value) :: fields => max (value.levels + 1) (Ron.fieldLevels fields)

end

end SeededText
