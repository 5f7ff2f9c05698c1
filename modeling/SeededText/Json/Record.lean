import SeededText.Json.Basic

/-!
# Reading JSON values by what they should be

Each reader here takes a JSON value for one kind of thing, or refuses it.  A record is an object
that has the fields it is asked for, each at most once, and may have others; or it is an array of
the fields' values in the order in which they are declared, perhaps with some missing at the end.
A kind among several is an object with one field, whose key names the kind.
-/

namespace SeededText.Json

def asText : Json → Option String
  | .string text => some text
  | _ => none

def asFlag : Json → Option Bool
  | .bool value => some value
  | _ => none

/-- A natural number below `2 ^ 64`, written without a point or an exponent. -/
def asIndex : Json → Option Nat
  | .number n =>
    match n.quantity? with
    | some (.natural n) => some n
    | _ => none
  | _ => none

/-- A double: any number in their range. -/
def asReal : Json → Option Float
  | .number n => n.quantity?.map Quantity.toFloat
  | _ => none

def asList {α : Type} (read : Json → Option α) : Json → Option (List α)
  | .array items => items.mapM read
  | _ => none

/-- A thing that may be null. -/
def asOptional {α : Type} (read : Json → Option α) : Json → Option (Option α)
  | .null => some none
  | value => (read value).map some

/-- The one field of an object: the name of a kind and what it holds. -/
def asKind : Json → Option (String × Json)
  | .object [field] => some field
  | _ => none

/-! ## Records -/

/-- The fields of a record, and whether they were given by their places in an array. -/
structure Fields where
  positional : Bool
  values : List (String × Json)

/-- The fields of a record that is asked for `known` fields. -/
def asFields (known : List String) : Json → Option Fields
  | .object fields =>
    if known.any fun key => (fields.filter fun f => f.1 = key).length > 1 then none
    else some ⟨false, fields⟩
  | .array items =>
    if items.length ≤ known.length then some ⟨true, known.zip items⟩ else none
  | _ => none

/-- The fields of a record that is asked for `known` fields and may not be an array. -/
def asNamedFields (known : List String) : Json → Option Fields
  | .array _ => none
  | json => asFields known json

def Fields.required {α : Type} (fields : Fields) (key : String) (read : Json → Option α) :
    Option α :=
  (fields.values.lookup key).bind read

def Fields.withDefault {α : Type} (fields : Fields) (key : String) (default : α)
    (read : Json → Option α) : Option α :=
  match fields.values.lookup key with
  | none => some default
  | some value => read value

/-- A field that may be left out of an object, though not out of an array. -/
def Fields.named {α : Type} (fields : Fields) (key : String) (default : α)
    (read : Json → Option α) : Option α :=
  match fields.values.lookup key with
  | none => if fields.positional then none else some default
  | some value => read value

end SeededText.Json
