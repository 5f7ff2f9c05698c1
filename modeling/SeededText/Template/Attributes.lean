import SeededText.Text.Blank
import SeededText.Text.Search
import SeededText.Template.Fault

/-!
# Attributes of an option tag

`title="..." condition="..."` in either order: a name, an equals sign, a value in double quotes,
blanks between attributes.  The title is required, and each attribute stands at most once.

`Attribute.read` takes one attribute off the front of a text.  What is left is shorter
(`Attribute.read_length`), so reading all of them ends.
-/

namespace SeededText

open Text

/-- One attribute as written. -/
structure Attribute where
  name : List Char
  value : List Char
deriving DecidableEq, Repr

/-- Takes one attribute off the front of a text that begins with it; also gives what follows the
closing quote. -/
def Attribute.read (cs : List Char) : Except OptionFault (Attribute × List Char) :=
  match cut? ['='] cs with
  | none => .error (.expectedAttribute (String.ofList cs))
  | some (before, after) =>
    let name := trim before
    if name.isEmpty || name.any isBlank then
      .error (.malformedName (String.ofList name))
    else
      match trimStart after with
      | '"' :: quoted =>
        match cut? ['"'] quoted with
        | none => .error (.unterminatedValue (String.ofList name))
        | some (value, rest) => .ok (⟨name, value⟩, rest)
      | _ => .error (.unquotedValue (String.ofList name))

theorem Attribute.read_length {cs rest : List Char} {a : Attribute}
    (h : Attribute.read cs = .ok (a, rest)) : rest.length < cs.length := by
  unfold Attribute.read at h
  split at h
  · simp at h
  · next before after hcut =>
    have hcs := cut?_eq_some hcut
    simp only at h
    split at h
    · simp at h
    · split at h
      · next quoted hq =>
        split at h
        · simp at h
        · next value rest' hcut' =>
          simp only [Except.ok.injEq, Prod.mk.injEq] at h
          have hquoted := cut?_eq_some hcut'
          have hle := trimStart_length_le after
          rw [hq, hquoted] at hle
          rw [hcs, ← h.2]
          simp at hle ⊢
          omega
      · simp at h

/-- The attributes found so far. -/
structure OptionAttributes where
  title : Option (List Char)
  condition : Option (List Char)
deriving DecidableEq, Repr

/-- Adds an attribute; a name may be used once. -/
def OptionAttributes.add (found : OptionAttributes) (a : Attribute) :
    Except OptionFault OptionAttributes :=
  if a.name = ['t', 'i', 't', 'l', 'e'] then
    if found.title.isSome then .error (.duplicateAttribute "title")
    else .ok { found with title := some a.value }
  else if a.name = ['c', 'o', 'n', 'd', 'i', 't', 'i', 'o', 'n'] then
    if found.condition.isSome then .error (.duplicateAttribute "condition")
    else .ok { found with condition := some a.value }
  else
    .error (.unknownAttribute (String.ofList a.name))

/-- Reads attributes until the text ends; the text begins with no blank. -/
def OptionAttributes.readFrom (found : OptionAttributes) (cs : List Char) :
    Except OptionFault OptionAttributes :=
  if cs.isEmpty then
    .ok found
  else
    match h : Attribute.read cs with
    | .error fault => .error fault
    | .ok (a, rest) =>
      match found.add a with
      | .error fault => .error fault
      | .ok found =>
        if !rest.isEmpty && !startsBlank rest then
          .error .unseparated
        else
          have : (trimStart rest).length < cs.length :=
            Nat.lt_of_le_of_lt (trimStart_length_le rest) (Attribute.read_length h)
          OptionAttributes.readFrom found (trimStart rest)
termination_by cs.length

/-- The title and the condition that the attributes of an option tag give. -/
def readOptionAttributes (cs : List Char) : Except OptionFault (String × Option String) :=
  match OptionAttributes.readFrom ⟨none, none⟩ (trimStart cs) with
  | .error fault => .error fault
  | .ok found =>
    match found.title with
    | none => .error .missingTitle
    | some title => .ok (String.ofList title, found.condition.map String.ofList)

end SeededText
