import SeededText.Template.Fault
import SeededText.Condition.Reader

/-!
# What can go wrong while a template is expanded

Problems never stop an expansion: each is recorded where it is met, and the text goes on as well
as it can.
-/

namespace SeededText

inductive Problem where
  /-- a condition that cannot be read; it counts as false -/
  | malformedCondition (e : MalformedCondition)
  | unknownVariable (name : String)
  | noEligibleValue (name : String)
  /-- a value is left as it is, because it stands too deep or the budget is spent -/
  | maxRecursionExceeded (name : String) (limit : Nat)
  | noEligibleOption (index : Nat)
  | invalidValueTemplate (name : String) (e : TemplateError)
deriving DecidableEq, Repr

def Problem.message : Problem → String
  | .malformedCondition e => e.message
  | .unknownVariable name => "unknown variable '" ++ name ++ "'"
  | .noEligibleValue name =>
    "variable '" ++ name ++ "' has no value eligible in this context"
  | .maxRecursionExceeded name limit =>
    "expanding variable '" ++ name ++ "' exceeded the nesting limit of "
      ++ Decimal.naturalText limit
  | .noEligibleOption index =>
    "no option of option group #" ++ Decimal.naturalText index
      ++ " is eligible in this context"
  | .invalidValueTemplate name e =>
    "value of variable '" ++ name ++ "' is not a valid template: " ++ e.message

def Problem.isCondition : Problem → Bool
  | .malformedCondition _ => true
  | _ => false

end SeededText
