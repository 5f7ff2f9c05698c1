import SeededText.Text.Search
import SeededText.Context

/-!
# Conditions

A condition compares the value of one key of a context with an operand: a scalar, which may be
quoted, or a list of texts.  A key that the context lacks decides every condition to false.

Equality is numeric when both sides are numbers and textual otherwise; the orderings hold of
numbers only; membership and containment are textual.  A quoted scalar is never a number.
-/

namespace SeededText

/-- How a condition compares. -/
inductive Operator where
  | eq | ne | gt | lt | ge | le | mem | contains
deriving DecidableEq, Repr

def Operator.symbol : Operator → String
  | .eq => "=="
  | .ne => "!="
  | .gt => ">"
  | .lt => "<"
  | .ge => ">="
  | .le => "<="
  | .mem => "in"
  | .contains => "contains"

/-- What a key's value is compared with. -/
inductive Operand where
  | scalar (text : String) (quoted : Bool)
  | list (items : List String)
deriving DecidableEq, Repr

/-- A condition: the key, the operator and the operand. -/
structure Condition where
  identifier : String
  operator : Operator
  operand : Operand
deriving DecidableEq, Repr

/-! ## 1. Writing -/

def Operand.display : Operand → String
  | .scalar text true => "\"" ++ text ++ "\""
  | .scalar text false => text
  | .list items => "[" ++ ", ".intercalate items ++ "]"

def Condition.display (c : Condition) : String :=
  c.identifier ++ " " ++ c.operator.symbol ++ " " ++ c.operand.display

/-! ## 2. Deciding -/

/-- The number that an operand is: an unquoted scalar that reads as a finite numeral. -/
def Operand.number? : Operand → Option Float
  | .scalar text false => Decimal.readFinite? text.toList
  | .scalar _ true | .list _ => none

/-- The value equals the operand: as numbers if both are numbers, else as texts. -/
def Value.equals (value : Value) (operand : Operand) (text : String) : Bool :=
  match value.number?, operand.number? with
  | some x, some y => x == y
  | _, _ => value.display == text

/-- The value stands in an order to the operand; only numbers do. -/
def Value.compares (value : Value) (operand : Operand) (order : Float → Float → Bool) : Bool :=
  match value.number?, operand.number? with
  | some x, some y => order x y
  | _, _ => false

/-- The condition decided for a value of its key. -/
def Condition.holdsOf (c : Condition) (value : Value) : Bool :=
  match c.operator, c.operand with
  | .mem, .list items => items.contains value.display
  | .mem, .scalar .. => false
  | _, .list _ => false
  | .contains, .scalar text _ => Text.holds text.toList value.display.toList
  | .eq, .scalar text _ => value.equals c.operand text
  | .ne, .scalar text _ => !value.equals c.operand text
  | .gt, .scalar .. => value.compares c.operand fun x y => y < x
  | .lt, .scalar .. => value.compares c.operand fun x y => x < y
  | .ge, .scalar .. => value.compares c.operand fun x y => y ≤ x
  | .le, .scalar .. => value.compares c.operand fun x y => x ≤ y

/-- The condition decided in a context; a missing key fails it. -/
def Condition.holds (c : Condition) (context : Context) : Bool :=
  match context.get? c.identifier with
  | none => false
  | some value => c.holdsOf value

end SeededText
