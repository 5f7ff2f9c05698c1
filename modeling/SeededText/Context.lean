import SeededText.Text.Blank
import SeededText.Decimal.Numeral
import SeededText.Decimal.Layout

/-!
# Facts that conditions are decided against

A context maps keys to values: texts, numbers and flags.  A value has a text, which is what
conditions compare, and perhaps a number, which decides the orderings.  A text counts as a number
when it reads as a finite numeral, blanks at its ends aside.
-/

namespace SeededText

/-! ## 1. Values -/

inductive Value where
  | text (text : String)
  | number (number : Float)
  | flag (flag : Bool)
deriving DecidableEq, Repr

/-- The number that a value is or reads as; always finite. -/
def Value.number? : Value → Option Float
  | .number x => if x.isFinite then some x else none
  | .text s => Decimal.readFinite? (Text.trim s.toList)
  | .flag _ => none

def Value.isNumeric (v : Value) : Bool :=
  v.number?.isSome

/-- The text of a value. -/
def Value.display : Value → String
  | .text s => s
  | .number x => Decimal.plain x
  | .flag true => "true"
  | .flag false => "false"

/-! ## 2. Contexts -/

/-- Keys with their values.  A key stands once, and keeps the place it was first given. -/
structure Context where
  entries : List (String × Value)
deriving DecidableEq, Repr

namespace Context

def empty : Context :=
  ⟨[]⟩

def get? (context : Context) (key : String) : Option Value :=
  context.entries.lookup key

/-- The list with the value of one key set. -/
def setIn (key : String) (value : Value) : List (String × Value) → List (String × Value)
  | [] => [(key, value)]
  | (k, v) :: rest => if k = key then (key, value) :: rest else (k, v) :: setIn key value rest

def insert (context : Context) (key : String) (value : Value) : Context :=
  ⟨setIn key value context.entries⟩

def size (context : Context) : Nat :=
  context.entries.length

/-- The context that a list of pairs gives; of two pairs with one key the later counts. -/
def ofList (pairs : List (String × Value)) : Context :=
  pairs.foldl (fun context (key, value) => context.insert key value) empty

/-! ## 3. One equation for looking up after setting -/

theorem get?_insert (context : Context) (key k : String) (value : Value) :
    (context.insert key value).get? k = if k = key then some value else context.get? k := by
  obtain ⟨entries⟩ := context
  simp only [insert, get?]
  induction entries with
  | nil => grind [setIn]
  | cons entry rest ih => grind [setIn]

end Context

end SeededText
