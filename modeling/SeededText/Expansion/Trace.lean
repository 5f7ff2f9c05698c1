import SeededText.Draw.Key
import SeededText.Expansion.Problem

/-!
# Traces

Expanding a template leaves a trace: the events of the expansion in order.  The text of the
variation and its problems are two readings of the trace; which slots were used, which draws were
made and which values were opened or left closed are others.
-/

namespace SeededText

/-- Something that happens while a template is expanded. -/
inductive Event where
  | text (text : String)
  | problem (problem : Problem)
  /-- a slot is used once more -/
  | use (key : Draw.Key)
  /-- a draw is made for a slot that was just used -/
  | draw (key : Draw.Key)
  /-- the text of a value is expanded, at a nesting level counted from one -/
  | opened (name : String) (level : Nat)
  /-- the text of a value that could be expanded is left as it is -/
  | closed (name : String)
deriving DecidableEq, Repr

/-- The events of an expansion in order. -/
abbrev Trace := List Event

namespace Trace

def written? : Event → Option String
  | .text text => some text
  | _ => none

def problem? : Event → Option Problem
  | .problem problem => some problem
  | _ => none

/-- The text that the events write. -/
def text (trace : Trace) : String :=
  String.join (trace.filterMap written?)

/-- The problems that the events record, in order. -/
def problems (trace : Trace) : List Problem :=
  trace.filterMap problem?

/-! Both readings go through a trace part by part. -/

@[simp]
theorem text_append (before after : Trace) :
    text (before ++ after) = text before ++ text after := by
  simp [text, String.join_append]

@[simp]
theorem problems_append (before after : Trace) :
    problems (before ++ after) = problems before ++ problems after :=
  List.filterMap_append

end Trace

end SeededText
