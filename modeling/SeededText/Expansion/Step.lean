import SeededText.Draw.Key
import SeededText.Expansion.Trace

/-!
# Steps of an expansion

An expansion carries along a `Tally`: how many more values may be opened, which uses the slots had
so far, and which variables were reported as running away.  A `Step` is a part of an expansion: it
goes on from a tally and the events so far, and it only adds events.  So a step is known by two
functions of the tally alone, the events it adds and the tally after it, and `Step.ext` says that
these two are all there is to it.

Steps are made of four: `emit` adds given events, `update` changes the tally, `ask` chooses the
step by the tally, and `andThen` puts one step after another.
-/

namespace SeededText

/-! ## 1. Tallies -/

/-- What an expansion carries along: how many more values may be opened, the keys of all uses of
slots, the last one first, and the variables that were reported. -/
structure Tally where
  budget : Nat
  uses : List Draw.Key
  reported : List String
deriving DecidableEq, Repr

def Tally.start (budget : Nat) : Tally :=
  ⟨budget, [], []⟩

/-- The key of the next use of a slot: its occurrence is one more than that of the last use. -/
def Tally.nextKey (tally : Tally) (slot : Draw.Slot) : Draw.Key :=
  match tally.uses.find? fun key => key.slot = slot with
  | none => ⟨slot, 0⟩
  | some key => ⟨slot, key.occurrence + 1⟩

/-! ## 2. Steps -/

/-- A part of an expansion: from a tally and the events so far, the last one first, to the events
and the tally after it.  It only adds events, and what it does depends on the tally alone. -/
structure Step where
  run : Tally → Trace → Trace × Tally
  run_eq : ∀ tally past, run tally past = ((run tally []).1 ++ past, (run tally []).2)

namespace Step

def events (step : Step) (tally : Tally) : Trace :=
  (step.run tally []).1.reverse

def after (step : Step) (tally : Tally) : Tally :=
  (step.run tally []).2

/-- A step is known by the events it adds and the tally after it. -/
@[ext]
theorem ext {first second : Step} (hevents : ∀ tally, first.events tally = second.events tally)
    (hafter : ∀ tally, first.after tally = second.after tally) : first = second := by
  have hrun : first.run = second.run := by
    funext tally past
    rw [first.run_eq, second.run_eq, List.reverse_inj.1 (hevents tally)]
    exact congrArg (Prod.mk _) (hafter tally)
  cases first
  cases second
  cases hrun
  rfl

def emit (events : Trace) : Step where
  run tally past := (events.reverseAux past, tally)
  run_eq := by simp [List.reverseAux_eq]

def skip : Step :=
  emit []

def update (change : Tally → Tally) : Step where
  run tally past := (past, change tally)
  run_eq := by simp

/-- The step that the tally chooses. -/
def ask (choose : Tally → Step) : Step where
  run tally past := (choose tally).run tally past
  run_eq tally past := (choose tally).run_eq tally past

def andThen (first second : Step) : Step where
  run tally past :=
    let (past, tally) := first.run tally past
    second.run tally past
  run_eq tally past := by
    simp only [first.run_eq tally past, second.run_eq _ (_ ++ past),
      second.run_eq _ (first.run tally []).1, List.append_assoc]

/-! ### What each of them adds, and the tally after it -/

@[simp]
theorem events_emit (events : Trace) (tally : Tally) : (emit events).events tally = events := by
  simp [Step.events, emit, List.reverseAux_eq]

@[simp]
theorem after_emit (events : Trace) (tally : Tally) : (emit events).after tally = tally := rfl

@[simp]
theorem events_skip (tally : Tally) : skip.events tally = [] := rfl

@[simp]
theorem after_skip (tally : Tally) : skip.after tally = tally := rfl

@[simp]
theorem events_update (change : Tally → Tally) (tally : Tally) :
    (update change).events tally = [] := rfl

@[simp]
theorem after_update (change : Tally → Tally) (tally : Tally) :
    (update change).after tally = change tally := rfl

@[simp]
theorem events_ask (choose : Tally → Step) (tally : Tally) :
    (ask choose).events tally = (choose tally).events tally := rfl

@[simp]
theorem after_ask (choose : Tally → Step) (tally : Tally) :
    (ask choose).after tally = (choose tally).after tally := rfl

@[simp]
theorem events_andThen (first second : Step) (tally : Tally) :
    (first.andThen second).events tally
      = first.events tally ++ second.events (first.after tally) := by
  simp only [Step.events, Step.after, andThen]
  rw [second.run_eq]
  simp

@[simp]
theorem after_andThen (first second : Step) (tally : Tally) :
    (first.andThen second).after tally = second.after (first.after tally) := by
  simp only [Step.after, andThen]
  rw [second.run_eq]

/-! Steps are a monoid: nothing at all is neutral on both sides, and only the order of steps
matters, not how they are bracketed. -/

@[simp]
theorem skip_andThen (step : Step) : skip.andThen step = step := rfl

@[simp]
theorem andThen_skip (step : Step) : step.andThen skip = step := rfl

theorem andThen_assoc (first second third : Step) :
    (first.andThen second).andThen third = first.andThen (second.andThen third) := rfl

/-! ### Steps made of them -/

def report (problems : List Problem) : Step :=
  emit (problems.map .problem)

/-- Uses a slot and goes on with the key of this use. -/
def useSlot (slot : Draw.Slot) (next : Draw.Key → Step) : Step :=
  ask fun tally =>
    let key := tally.nextKey slot
    (update fun tally => { tally with uses := key :: tally.uses }).andThen <|
      (emit [.use key]).andThen (next key)

end Step

end SeededText
