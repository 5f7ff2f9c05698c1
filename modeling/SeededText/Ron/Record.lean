import SeededText.Ron.Basic

/-!
# Reading RON values by what they should be

Each reader here takes a value of the notation for one kind of thing, or refuses it.  It is told
how many levels are left, and a reader of parts spends some: what stands inside is read by
`inside`, with one level less.  A record has the fields it is asked for, each at most once, and may
have others, which only have to be values; its name may be left out.
-/

namespace SeededText.Ron

/-- A reader of values for one kind of thing, by the levels that are left. -/
abbrev As (α : Type) := (levels : Nat) → Ron → Option α

/-- The reader for what stands inside: a level is spent on it. -/
def inside {α : Type} (read : As α) : As α
  | 0, _ => none
  | levels + 1, value => read levels value

def asText : As String
  | _, .string text => some text
  | _, _ => none

def asFlag : As Bool
  | _, .word w =>
    if w = ['t', 'r', 'u', 'e'] then some true
    else if w = ['f', 'a', 'l', 's', 'e'] then some false
    else none
  | _, _ => none

/-- A natural number below `2 ^ 64`. -/
def asIndex : As Nat
  | _, .word w => readWordIndex? w
  | _, _ => none

def asReal : As Float
  | _, .word w => readWordFloat? w
  | _, _ => none

def asList {α : Type} (read : As α) : As (List α)
  | levels + 1, .list items => items.mapM (inside read levels)
  | _, _ => none

/-- A map from texts to things of one kind, as pairs. -/
def asPairs {α : Type} (read : As α) : As (List (String × α))
  | levels + 1, .map entries =>
    entries.mapM fun (key, value) => do
      return (← inside asText levels key, ← inside read levels value)
  | _, _ => none

/-- A thing that may be absent; where a text allows it, one that is there may be given bare. -/
def asOptional {α : Type} (implicitSome : Bool) (read : As α) : As (Option α) :=
    fun levels value =>
  let bare (value : Ron) := if implicitSome then (inside read levels value).map some else none
  match value with
  | .word w => if w = ['N', 'o', 'n', 'e'] then some none else bare value
  | .bareSome _ value => bare value
  | .tuple name items =>
    if isSomeKeyword name then
      match items with
      | [item] => (inside read levels item).map some
      | _ => none
    else bare value
  | .record name _ => if isSomeKeyword name then none else bare value
  | _ => bare value

/-! ## Records -/

/-- The name in front of a group may stand there, when `expected` is asked for. -/
def nameFits (expected : String) : Option RonName → Bool
  | none => true
  | some name => String.ofList name.text = expected

/-- The fields of a record and the levels that are left for them. -/
structure Fields where
  levels : Nat
  values : List (String × Ron)

/-- The fields of a record that is asked for `known` fields. -/
def asFields (implicitSome : Bool) (expected : String) (known : List String) : As Fields
  | levels + 1, .unit => some ⟨levels, []⟩
  | levels + 1, .tuple name [] => if nameFits expected name then some ⟨levels, []⟩ else none
  | levels + 1, .record name fields =>
    let fields := fields.map fun (key, value) => (String.ofList key, value)
    let repeated := known.any fun key => (fields.filter fun f => f.1 = key).length > 1
    let othersFree := fields.all fun (key, value) =>
      known.contains key || (value.isFree implicitSome && value.levels < levels)
    if nameFits expected name && !repeated && othersFree then some ⟨levels, fields⟩ else none
  | _, _ => none

def Fields.required {α : Type} (fields : Fields) (key : String) (read : As α) : Option α :=
  (fields.values.lookup key).bind (inside read fields.levels)

def Fields.withDefault {α : Type} (fields : Fields) (key : String) (default : α) (read : As α) :
    Option α :=
  match fields.values.lookup key with
  | none => some default
  | some value => inside read fields.levels value

end SeededText.Ron
