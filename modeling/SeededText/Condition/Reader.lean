import SeededText.Condition.Basic

/-!
# Reading a condition

`identifier operator literal`, blanks between the parts optional where the operator is a symbol.
A literal is a bare text, a text in single or double quotes, or, with `in` only, a bracketed list.
A bare literal that holds an operator itself is refused, and so is a quote inside quotes.

`Condition.read` takes the parts off the text from left to right, so that the first part at fault
names the reason.
-/

namespace SeededText

open Text

/-- Why a text is no condition. -/
inductive ConditionFault where
  | empty
  | missingIdentifier
  | missingOperator
  | missingValue
  /-- a list is not closed at the end of the text -/
  | unterminatedList
  /-- a list after an operator other than `in` -/
  | misplacedList (operator : Operator)
  /-- no list after `in` -/
  | expectedList
  | unterminatedQuote
  | innerQuote
  | secondOperator
  /-- a quote in the list is never closed -/
  | unterminatedListQuote
  /-- an item begins with a quote and is not one quoted text -/
  | malformedItem (item : String)
  /-- an item holds a quote without beginning with one -/
  | quoteInItem (item : String)
deriving DecidableEq, Repr

/-- A text that is no condition, and why. -/
structure MalformedCondition where
  source : String
  fault : ConditionFault
deriving DecidableEq, Repr

def ConditionFault.message : ConditionFault → String
  | .empty => "empty expression"
  | .missingIdentifier => "missing identifier"
  | .missingOperator => "expected an operator after the identifier"
  | .missingValue => "missing value after operator"
  | .unterminatedList => "unterminated list"
  | .misplacedList operator => "a list is only valid with 'in', not '" ++ operator.symbol ++ "'"
  | .expectedList => "'in' expects a bracketed list like [a, b]"
  | .unterminatedQuote => "unterminated quoted string"
  | .innerQuote => "unexpected quote inside string literal"
  | .secondOperator => "more than one operator"
  | .unterminatedListQuote => "unterminated quoted string in list"
  | .malformedItem item => "malformed quoted list item " ++ item
  | .quoteInItem item => "unexpected quote in list item " ++ item

def MalformedCondition.message (e : MalformedCondition) : String :=
  "malformed condition '" ++ e.source ++ "': " ++ e.fault.message

/-! ## 1. The operator -/

/-- Operators that are symbols, each before those it begins with. -/
def symbolOperators : List (List Char × Operator) :=
  [(['=', '='], .eq), (['!', '='], .ne), (['>', '='], .ge), (['<', '='], .le), (['>'], .gt),
   (['<'], .lt)]

/-- Operators that are words. -/
def wordOperators : List (List Char × Operator) :=
  [(['c', 'o', 'n', 't', 'a', 'i', 'n', 's'], .contains), (['i', 'n'], .mem)]

/-- The text may follow an operator that is a word. -/
def endsWord : List Char → Bool
  | [] => false
  | c :: _ => isBlank c || c = '[' || c = '"' || c = '\''

/-- The operator at the front of a text, and what follows it. -/
def splitOperator? (cs : List Char) : Option (Operator × List Char) :=
  let symbol? := symbolOperators.findSome? fun (token, operator) =>
    (stripFront? token cs).map fun rest => (operator, rest)
  let word? := wordOperators.findSome? fun (word, operator) =>
    ((stripFront? word cs).filter endsWord).map fun rest => (operator, rest)
  symbol?.or word?

/-! ## 2. Quotes -/

/-- The text without its last character, if that is `c`. -/
def dropLast? (c : Char) (cs : List Char) : Option (List Char) :=
  if cs.getLast? = some c then some cs.dropLast else none

def isQuote (c : Char) : Bool :=
  c = '"' || c = '\''

/-! ## 3. Lists -/

/-- The body of a list cut at the commas outside quotes: the segments that a comma ends, the last
segment, and the quote that is still open at the end. -/
structure Segments where
  closed : List (List Char)
  last : List Char
  openQuote : Option Char
deriving DecidableEq, Repr

/-- Puts a character in front of the first segment. -/
def Segments.push (c : Char) (s : Segments) : Segments :=
  match s.closed with
  | [] => { s with last := c :: s.last }
  | segment :: segments => { s with closed := (c :: segment) :: segments }

/-- Cuts a list body; `quote` is the quote that is open in front of it. -/
def Segments.cut (quote : Option Char) : List Char → Segments
  | [] => ⟨[], [], quote⟩
  | c :: cs =>
    match quote with
    | some q => (Segments.cut (if c = q then none else some q) cs).push c
    | none =>
      if isQuote c then
        (Segments.cut (some c) cs).push c
      else if c = ',' then
        let rest := Segments.cut none cs
        { rest with closed := [] :: rest.closed }
      else
        (Segments.cut none cs).push c

/-- The item that a segment holds; a blank segment holds none. -/
def readItem (segment : List Char) : Except ConditionFault (Option String) :=
  match trim segment with
  | [] => .ok none
  | c :: rest =>
    let item := String.ofList (c :: rest)
    if isQuote c then
      match dropLast? c rest with
      | none => .error (.malformedItem item)
      | some inner =>
        if inner.contains c then .error (.malformedItem item)
        else .ok (some (String.ofList inner))
    else if rest.any isQuote then
      .error (.quoteInItem item)
    else
      .ok (some item)

/-- The items of a list body. -/
def readItems (body : List Char) : Except ConditionFault (List String) := do
  let segments := Segments.cut none body
  let items ← segments.closed.mapM readItem
  if segments.openQuote.isSome then
    throw .unterminatedListQuote
  let last ← readItem segments.last
  return (items ++ [last]).filterMap id

/-! ## 4. The operand -/

/-- The text holds an operator: a symbol anywhere, or a word between blanks. -/
def holdsOperator (cs : List Char) : Bool :=
  symbolOperators.any (fun (token, _) => Text.holds token cs)
    || (words cs).any fun word => wordOperators.any fun (w, _) => w = word

/-- The operand that a trimmed, non-empty text writes. -/
def readOperand (operator : Operator) (cs : List Char) : Except ConditionFault Operand :=
  match cs with
  | '[' :: rest =>
    match dropLast? ']' rest with
    | none => .error .unterminatedList
    | some body =>
      if operator = .mem then (readItems body).map .list
      else .error (.misplacedList operator)
  | _ =>
    if operator = .mem then
      .error .expectedList
    else
      match cs with
      | c :: rest =>
        if isQuote c then
          match dropLast? c rest with
          | none => .error .unterminatedQuote
          | some inner =>
            if inner.contains c then .error .innerQuote
            else .ok (.scalar (String.ofList inner) true)
        else if holdsOperator cs then .error .secondOperator
        else .ok (.scalar (String.ofList cs) false)
      | [] => .ok (.scalar "" false)

/-! ## 5. The condition -/

/-- The character may stand in the key of a condition. -/
def isKeyChar (c : Char) : Bool :=
  ('a' ≤ c && c ≤ 'z') || ('A' ≤ c && c ≤ 'Z') || ('0' ≤ c && c ≤ '9') || c = '_' || c = '.'

/-- The condition that a text writes, or why it writes none. -/
def readCondition (cs : List Char) : Except ConditionFault Condition :=
  match trim cs with
  | [] => .error .empty
  | source =>
    let identifier := source.takeWhile isKeyChar
    if identifier.isEmpty then
      .error .missingIdentifier
    else
      match splitOperator? (trimStart (source.dropWhile isKeyChar)) with
      | none => .error .missingOperator
      | some (operator, rest) =>
        match trim rest with
        | [] => .error .missingValue
        | operandSource =>
          (readOperand operator operandSource).map fun operand =>
            ⟨String.ofList identifier, operator, operand⟩

/-- The condition that a text writes; a text that writes none is named with the reason. -/
def Condition.read (source : String) : Except MalformedCondition Condition :=
  (readCondition source.toList).mapError fun fault => ⟨source, fault⟩

/-- A condition's text decided in a context. -/
def decideCondition (source : String) (context : Context) : Except MalformedCondition Bool :=
  (Condition.read source).map fun c => c.holds context

end SeededText
