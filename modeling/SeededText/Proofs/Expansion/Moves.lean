import SeededText.Proofs.Expansion.Refinement

/-!
# An expansion as a sequence of moves

The walk of a template is a recursion three times over: along lists of nodes, into their branches,
and into the values that are opened, as far as levels are left.  Here the same walk is a machine.  A
`Stage` is what is left to do, an agenda of nodes each on its level, and the tally.  A move takes the
first node off the agenda, adds events, and puts what is to be walked of the node in its place.

What one move can do is said once, by the constructors of `Move` and `Places`.  What holds of every
expansion is then shown of one move, and of all of them by one induction over `Moves`.  That the
machine is the walk is `trace_eq_iff_moves`.
-/

namespace SeededText

/-! ## 1. Stages -/

/-- A node to be walked, and its level: how many opened values it stands in. -/
structure Item where
  level : Nat
  node : Node

/-- What is left of an expansion: the nodes to be walked, the next one first, and the tally. -/
structure Stage where
  agenda : List Item
  tally : Tally

def atLevel (level : Nat) (nodes : List Node) : List Item :=
  nodes.map fun node => ⟨level, node⟩

/-- The tally after a use of a slot. -/
def Tally.use (tally : Tally) (slot : Draw.Slot) : Tally :=
  { tally with uses := tally.nextKey slot :: tally.uses }

@[simp]
theorem slot_nextKey (tally : Tally) (slot : Draw.Slot) : (tally.nextKey slot).slot = slot := by
  unfold Tally.nextKey
  split <;> rfl

theorem nextKey_use (tally : Tally) (slot other : Draw.Slot) :
    (tally.use slot).nextKey other
      = if slot = other then ⟨other, (tally.nextKey other).occurrence + 1⟩
        else tally.nextKey other := by
  have huses : (tally.use slot).uses = tally.nextKey slot :: tally.uses := rfl
  conv => lhs; rw [Tally.nextKey, huses, List.find?_cons, slot_nextKey]
  by_cases h : slot = other
  · simp [h]
  · rw [if_neg h, decide_eq_false h]
    rfl

/-- The tally after a value is opened. -/
def Tally.spend (tally : Tally) : Tally :=
  { tally with budget := tally.budget - 1 }

/-- Of some things, the one that the draw with a key picks among the admitted. -/
def Setting.pick? {α : Type} (s : Setting) (key : Draw.Key) (conditionOf : α → Option String)
    (xs : List α) : Option α :=
  let admitted := (Admission.of s.context conditionOf xs).admitted
  (Draw.index? (key.material s.material) admitted.length).bind (admitted[·]?)

/-- The text that the draw with a key picks for a variable, or why there is none. -/
def Setting.pickText (s : Setting) (key : Draw.Key) (name : String) : Except Problem String :=
  (s.catalog.eligible s.context name).pick name (key.material s.material)

/-- The problems of a variable's conditions. -/
def Setting.malformed (s : Setting) (name : String) : List Problem :=
  (s.catalog.eligible s.context name).malformed.map .malformedCondition

/-! ## 2. Moves -/

/-- How the text of a value takes the place of its variable, which stands on `level`: the events,
the nodes that are walked for it, and the tally after it. -/
inductive Places (s : Setting) (level : Nat) (tally : Tally) (name text : String) :
    Trace → List Item → Tally → Prop where
  | plain : hasMark text = false → Places s level tally name text [.text text] [] tally
  | opened {template : Template} : hasMark text = true → level < s.maxLevel → tally.budget ≠ 0 →
      Template.read text = .ok template →
        Places s level tally name text [.opened name (level + 1)]
          (atLevel (level + 1) template.nodes) tally.spend
  | invalid {fault : TemplateError} : hasMark text = true → level < s.maxLevel →
      tally.budget ≠ 0 → Template.read text = .error fault →
        Places s level tally name text
          [.opened name (level + 1), .problem (.invalidValueTemplate name fault), .text text] []
          tally.spend
  | closed : hasMark text = true → s.maxLevel ≤ level ∨ tally.budget = 0 →
      name ∉ tally.reported →
        Places s level tally name text
          [.closed name, .problem (.maxRecursionExceeded name s.maxLevel), .text text] []
          { tally with reported := name :: tally.reported }
  /-- the variable was reported before -/
  | closedAgain : hasMark text = true → s.maxLevel ≤ level ∨ tally.budget = 0 →
      name ∈ tally.reported →
        Places s level tally name text [.closed name, .text text] [] tally

/-- One move: a node on `level` is taken off the agenda, with these events, these nodes in its place
and this tally after it. -/
inductive Move (s : Setting) (level : Nat) (tally : Tally) :
    Node → Trace → List Item → Tally → Prop where
  | literal (text : String) : Move s level tally (.literal text) [.text text] [] tally
  | thenBranch {condition : String} {thenBranch : List Node} {elseBranch : Option (List Node)} :
      decideCondition condition s.context = .ok true →
        Move s level tally (.conditional condition thenBranch elseBranch) []
          (atLevel level thenBranch) tally
  | elseBranch {condition : String} {thenBranch : List Node} {elseBranch : Option (List Node)} :
      decideCondition condition s.context = .ok false →
        Move s level tally (.conditional condition thenBranch elseBranch) []
          (atLevel level (elseBranch.getD [])) tally
  | malformed {condition : String} {thenBranch : List Node} {elseBranch : Option (List Node)}
      {e : MalformedCondition} : decideCondition condition s.context = .error e →
        Move s level tally (.conditional condition thenBranch elseBranch)
          [.problem (.malformedCondition e)] (atLevel level (elseBranch.getD [])) tally
  | option {index : Nat} {options : List (Choice Node)} {option : Choice Node} :
      s.pick? (tally.nextKey (.optionGroup index)) Choice.condition options = some option →
        Move s level tally (.optionGroup index options)
          (.use (tally.nextKey (.optionGroup index)) ::
            ((unreadable s.context (options.map Choice.condition)).map .problem
              ++ [.draw (tally.nextKey (.optionGroup index))]))
          (atLevel level option.body) (tally.use (.optionGroup index))
  | noOption {index : Nat} {options : List (Choice Node)} :
      s.pick? (tally.nextKey (.optionGroup index)) Choice.condition options = none →
        Move s level tally (.optionGroup index options)
          (.use (tally.nextKey (.optionGroup index)) ::
            ((unreadable s.context (options.map Choice.condition)).map .problem
              ++ [.problem (.noEligibleOption index)]))
          [] (tally.use (.optionGroup index))
  | noValue {name : String} {problem : Problem} :
      s.pickText (tally.nextKey (.variable name)) name = .error problem →
        Move s level tally (.variable name)
          (.use (tally.nextKey (.variable name)) ::
            ((s.malformed name).map .problem ++ [.problem problem, .text (placeholder name)]))
          [] (tally.use (.variable name))
  | value {name text : String} {events : Trace} {items : List Item} {after : Tally} :
      s.pickText (tally.nextKey (.variable name)) name = .ok text →
        Places s level (tally.use (.variable name)) name text events items after →
          Move s level tally (.variable name)
            (.use (tally.nextKey (.variable name)) ::
              ((s.malformed name).map .problem
                ++ .draw (tally.nextKey (.variable name)) :: events))
            items after

/-- Moves one after another, with all their events. -/
inductive Moves (s : Setting) : Stage → Trace → Stage → Prop where
  | refl (stage : Stage) : Moves s stage [] stage
  | move {level : Nat} {node : Node} {agenda items : List Item} {tally after : Tally}
      {events later : Trace} {finish : Stage} :
      Move s level tally node events items after → Moves s ⟨items ++ agenda, after⟩ later finish →
        Moves s ⟨⟨level, node⟩ :: agenda, tally⟩ (events ++ later) finish

section

variable {s : Setting} {start middle finish finish' : Stage} {events later events' : Trace}

theorem Moves.trans (h : Moves s start events middle) (h' : Moves s middle later finish) :
    Moves s start (events ++ later) finish := by
  induction h with
  | refl => exact h'
  | move hmove _ ih =>
    rw [List.append_assoc]
    exact .move hmove (ih h')

/-- What comes later on the agenda does not matter for the moves before it. -/
theorem Moves.before (h : Moves s start events finish) (rest : List Item) :
    Moves s ⟨start.agenda ++ rest, start.tally⟩ events ⟨finish.agenda ++ rest, finish.tally⟩ := by
  induction h with
  | refl => exact .refl _
  | move hmove _ ih =>
    refine .move hmove ?_
    rw [List.append_eq, ← List.append_assoc]
    exact ih

/-- What every move keeps, all moves keep. -/
theorem Moves.invariant {P : Stage → Prop}
    (hmove : ∀ {level tally node events items after agenda},
      Move s level tally node events items after → P ⟨⟨level, node⟩ :: agenda, tally⟩ →
        P ⟨items ++ agenda, after⟩)
    (h : Moves s start events finish) (hstart : P start) : P finish := by
  induction h with
  | refl => exact hstart
  | move hfirst _ ih => exact ih (hmove hfirst hstart)

end

/-! ## 3. A node has one move -/

section

variable {s : Setting} {level : Nat} {tally after after' : Tally} {name text : String}
  {node : Node} {events events' : Trace} {items items' : List Item}

theorem Places.unique (h : Places s level tally name text events items after)
    (h' : Places s level tally name text events' items' after') :
    events = events' ∧ items = items' ∧ after = after' := by
  cases h <;> cases h' <;> simp_all <;> omega

theorem Move.unique (h : Move s level tally node events items after)
    (h' : Move s level tally node events' items' after') :
    events = events' ∧ items = items' ∧ after = after' := by
  cases h with
  | literal => cases h'; exact ⟨rfl, rfl, rfl⟩
  | thenBranch hc => cases h' <;> simp_all
  | elseBranch hc => cases h' <;> simp_all
  | malformed hc => cases h' <;> simp_all
  | option hpick => cases h' <;> simp_all
  | noOption hpick => cases h' <;> simp_all
  | noValue hpick => cases h' <;> simp_all
  | value hpick hplaces =>
    cases h' with
    | noValue hpick' => rw [hpick] at hpick'; cases hpick'
    | value hpick' hplaces' =>
      rw [hpick] at hpick'
      cases hpick'
      obtain ⟨rfl, rfl, rfl⟩ := hplaces.unique hplaces'
      exact ⟨rfl, rfl, rfl⟩

/-- Moves until nothing is left come to the same end. -/
theorem Moves.unique {start finish finish' : Stage} (h : Moves s start events finish)
    (h' : Moves s start events' finish') (hend : finish.agenda = []) (hend' : finish'.agenda = []) :
    events = events' ∧ finish = finish' := by
  induction h generalizing events' with
  | refl start =>
    cases h' with
    | refl => exact ⟨rfl, rfl⟩
    | move => cases hend
  | move hmove _ ih =>
    cases h' with
    | refl => cases hend'
    | move hmove' hlater =>
      obtain ⟨rfl, rfl, rfl⟩ := hmove.unique hmove'
      obtain ⟨rfl, hfinish⟩ := ih hlater hend
      exact ⟨rfl, hfinish⟩

/-- Moves until nothing is left come through every stage that moves from the same start come to. -/
theorem Moves.rest {start stage finish : Stage} {past : Trace} (hpast : Moves s start past stage)
    (h : Moves s start events finish) (hend : finish.agenda = []) :
    ∃ later, events = past ++ later ∧ Moves s stage later finish := by
  induction hpast generalizing events with
  | refl => exact ⟨events, rfl, h⟩
  | move hmove _ ih =>
    cases h with
    | refl => cases hend
    | move hmove' hlater =>
      obtain ⟨rfl, rfl, rfl⟩ := hmove.unique hmove'
      obtain ⟨later, rfl, hrest⟩ := ih hlater
      exact ⟨later, (List.append_assoc ..).symm, hrest⟩

/-! ### What is picked -/

/-- The text that is picked for a variable is that of an admitted value. -/
theorem pickText_eq_ok {key : Draw.Key} (h : s.pickText key name = .ok text) :
    ∃ e value, s.catalog.get? name = some e ∧ value ∈ e.values ∧
      Admits s.context value.condition ∧ value.text = text := by
  unfold Setting.pickText at h
  cases hget : s.catalog.get? name with
  | none =>
    rw [eligible_unknown hget] at h
    cases h
  | some e =>
    rcases pick_eligible hget (key.material s.material) with
      ⟨-, hpick⟩ | ⟨value, hmem, hadmits, hpick⟩
    · rw [hpick] at h
      cases h
    · rw [hpick] at h
      cases h
      exact ⟨e, value, rfl, hmem, hadmits, rfl⟩

theorem mem_of_pick? {α : Type} {key : Draw.Key} {conditionOf : α → Option String} {xs : List α}
    {x : α} (h : s.pick? key conditionOf xs = some x) : x ∈ xs := by
  obtain ⟨i, -, hi⟩ := Option.bind_eq_some_iff.1 h
  exact (mem_admitted.1 (List.mem_of_getElem? hi)).1

end

/-! ## 4. Walks are moves -/

/-- The step does what moves do with the agenda, whatever the tally is. -/
def Step.Performs (s : Setting) (agenda : List Item) (step : Step) : Prop :=
  ∀ tally, Moves s ⟨agenda, tally⟩ (step.events tally) ⟨[], step.after tally⟩

section

variable {s : Setting} {level : Nat} {tally after : Tally} {node : Node} {events : Trace}
  {items agenda agenda' : List Item} {step first second : Step} {expand : String → Step}

theorem Step.Performs.andThen (h : first.Performs s agenda) (h' : second.Performs s agenda') :
    (first.andThen second).Performs s (agenda ++ agenda') := by
  intro tally
  rw [Step.events_andThen, Step.after_andThen]
  exact ((h tally).before agenda').trans (h' (first.after tally))

/-- A node is walked by its move and by walking what the move puts in its place. -/
theorem Move.performs (hmove : Move s level tally node events items after)
    (hstep : step.Performs s items) :
    Moves s ⟨[⟨level, node⟩], tally⟩ (events ++ step.events after) ⟨[], step.after after⟩ := by
  refine .move hmove ?_
  rw [List.append_nil]
  exact hstep after

@[simp]
theorem Step.events_useSlot (slot : Draw.Slot) (next : Draw.Key → Step) (tally : Tally) :
    (Step.useSlot slot next).events tally
      = .use (tally.nextKey slot) :: (next (tally.nextKey slot)).events (tally.use slot) := by
  simp [Step.useSlot, Tally.use]

@[simp]
theorem Step.after_useSlot (slot : Draw.Slot) (next : Draw.Key → Step) (tally : Tally) :
    (Step.useSlot slot next).after tally = (next (tally.nextKey slot)).after (tally.use slot) := by
  simp [Step.useSlot, Tally.use]

theorem skip_performs : Step.skip.Performs s [] :=
  fun _ => .refl _

theorem chooseBranch_performs {condition : String} {thenBranch : List Node}
    {elseBranch : Option (List Node)} {thenStep elseStep : Step}
    (hthen : thenStep.Performs s (atLevel level thenBranch))
    (helse : elseStep.Performs s (atLevel level (elseBranch.getD []))) :
    (chooseBranch s condition thenStep elseStep).Performs s
      [⟨level, .conditional condition thenBranch elseBranch⟩] := by
  intro tally
  unfold chooseBranch
  split
  · next hc => exact (Move.thenBranch hc).performs hthen
  · next hc => exact (Move.elseBranch hc).performs helse
  · next e hc =>
    rw [Step.events_andThen, Step.after_andThen, Step.report, Step.events_emit, Step.after_emit]
    exact (Move.malformed hc).performs helse

/-- Admission looks at the conditions only. -/
theorem of_map {α β : Type} (context : Context) (conditionOf : β → Option String) (f : α → β)
    (xs : List α) :
    Admission.of context conditionOf (xs.map f)
      = ⟨(Admission.of context (conditionOf ∘ f) xs).admitted.map f,
          (Admission.of context (conditionOf ∘ f) xs).malformed⟩ := by
  induction xs with
  | nil => rfl
  | cons x xs ih =>
    rw [List.map_cons, Admission.of, Admission.of, ih]
    dsimp only [Function.comp]
    split
    · rfl
    · split <;> rfl

theorem pick?_map {α β : Type} (s : Setting) (key : Draw.Key) (conditionOf : β → Option String)
    (f : α → β) (xs : List α) :
    s.pick? key conditionOf (xs.map f) = (s.pick? key (conditionOf ∘ f) xs).map f := by
  simp only [Setting.pick?, of_map, List.length_map]
  cases Draw.index? (key.material s.material)
      (Admission.of s.context (conditionOf ∘ f) xs).admitted.length with
  | none => rfl
  | some i => exact List.getElem?_map

/-- Walking a group, by its options instead of the branches that they are. -/
theorem chooseOption_eq (s : Setting) (expand : String → Step) (index : Nat)
    (options : List (Choice Node)) :
    chooseOption s index (walkOptions s expand options)
      = .useSlot (.optionGroup index) fun key =>
          (Step.report (unreadable s.context (options.map Choice.condition))).andThen <|
            match s.pick? key Choice.condition options with
            | none => .report [.noEligibleOption index]
            | some option => (Step.emit [.draw key]).andThen (walkNodes s expand option.body) := by
  have hproblems : (Admission.of s.context Branch.condition
      (walkOptions s expand options)).problems
      = unreadable s.context (options.map Choice.condition) := by
    rw [problems_of, walkOptions_eq_map, List.map_map]
    rfl
  have hpick : ∀ key, s.pick? key Branch.condition (walkOptions s expand options)
      = (s.pick? key Choice.condition options).map fun option =>
          ⟨option.condition, walkNodes s expand option.body⟩ := by
    intro key
    rw [walkOptions_eq_map, pick?_map]
    rfl
  unfold chooseOption
  congr 1
  funext key
  dsimp only
  rw [hproblems]
  have hbranch := hpick key
  rw [Setting.pick?] at hbranch
  rw [hbranch]
  cases s.pick? key Choice.condition options <;> rfl

theorem chooseOption_performs {index : Nat} {options : List (Choice Node)}
    (hbody : ∀ option ∈ options,
      (walkNodes s expand option.body).Performs s (atLevel level option.body)) :
    (chooseOption s index (walkOptions s expand options)).Performs s
      [⟨level, .optionGroup index options⟩] := by
  intro tally
  rw [chooseOption_eq]
  cases hpick : s.pick? (tally.nextKey (.optionGroup index)) Choice.condition options with
  | none =>
    have hmove : Move s level tally _ _ _ _ := .noOption hpick
    have hmoves := hmove.performs skip_performs
    simpa [Step.report, hpick] using hmoves
  | some option =>
    have hmove : Move s level tally _ _ _ _ := .option hpick
    have hmoves := hmove.performs (hbody option (mem_of_pick? hpick))
    simpa [Step.report, hpick] using hmoves

mutual

/-- Walking a node is what its move and the moves after it do, if this is so for variables. -/
theorem walkNode_performs (hexpand : ∀ name, (expand name).Performs s [⟨level, .variable name⟩]) :
    ∀ node, (walkNode s expand node).Performs s [⟨level, node⟩]
  | .literal text => fun _ => .move (.literal text) (.refl _)
  | .variable name => hexpand name
  | .conditional _ thenBranch none =>
    chooseBranch_performs (walkNodes_performs hexpand thenBranch) skip_performs
  | .conditional _ thenBranch (some elseBranch) =>
    chooseBranch_performs (walkNodes_performs hexpand thenBranch)
      (walkNodes_performs hexpand elseBranch)
  | .optionGroup _ options => chooseOption_performs (walkOptions_performs hexpand options)

theorem walkNodes_performs (hexpand : ∀ name, (expand name).Performs s [⟨level, .variable name⟩]) :
    ∀ nodes, (walkNodes s expand nodes).Performs s (atLevel level nodes)
  | [] => skip_performs
  | node :: nodes => (walkNode_performs hexpand node).andThen (walkNodes_performs hexpand nodes)

theorem walkOptions_performs
    (hexpand : ∀ name, (expand name).Performs s [⟨level, .variable name⟩]) :
    ∀ options : List (Choice Node), ∀ option ∈ options,
      (walkNodes s expand option.body).Performs s (atLevel level option.body)
  | [], _, hmem => nomatch hmem
  | ⟨_, _, body⟩ :: options, option, hmem => by
    rcases List.mem_cons.1 hmem with rfl | hmem
    · exact walkNodes_performs hexpand body
    · exact walkOptions_performs hexpand options option hmem

end

end

/-! ### Variables -/

/-- From the tally the step puts a value's text in the place of its variable, and walks what is to be
walked for it. -/
def Step.Replaces (s : Setting) (level : Nat) (tally : Tally) (name text : String)
    (step : Step) : Prop :=
  ∃ events items after later, Places s level tally name text events items after ∧
    Moves s ⟨items, after⟩ later ⟨[], step.after tally⟩ ∧ step.events tally = events ++ later

section

variable {s : Setting} {level : Nat} {tally : Tally} {name text : String}

theorem leaveClosed_replaces (hmark : hasMark text = true)
    (hlimit : s.maxLevel ≤ level ∨ tally.budget = 0) :
    (leaveClosed s name text).Replaces s level tally name text := by
  by_cases hname : name ∈ tally.reported
  · refine ⟨_, [], _, [], .closedAgain hmark hlimit hname, ?_, ?_⟩
    · simpa [leaveClosed, hname] using .refl _
    · simp [leaveClosed, hname]
  · refine ⟨_, [], _, [], .closed hmark hlimit hname, ?_, ?_⟩
    · simpa [leaveClosed, hname] using .refl _
    · simp [leaveClosed, hname]

theorem openValue_replaces {walk : List Node → Step} (hmark : hasMark text = true)
    (hlt : level < s.maxLevel)
    (hwalk : ∀ nodes, (walk nodes).Performs s (atLevel (level + 1) nodes)) :
    (openValue s (level + 1) walk name text).Replaces s level tally name text := by
  by_cases hzero : tally.budget = 0
  · obtain ⟨events, items, after, later, hplaces, hlater, hevents⟩ :=
      leaveClosed_replaces hmark (.inr hzero)
    refine ⟨events, items, after, later, hplaces, ?_, ?_⟩
    · simpa [openValue, hzero] using hlater
    · simpa [openValue, hzero] using hevents
  · cases hread : Template.read text with
    | ok template =>
      refine ⟨_, _, _, (walk template.nodes).events tally.spend, .opened hmark hlt hzero hread,
        ?_, ?_⟩
      · simpa [openValue, hzero, hread, Tally.spend] using hwalk template.nodes tally.spend
      · simp [openValue, hzero, hread, Tally.spend]
    | error fault =>
      refine ⟨_, [], _, [], .invalid hmark hlt hzero hread, ?_, ?_⟩
      · simpa [openValue, hzero, hread, Tally.spend] using .refl _
      · simp [openValue, hzero, hread]

theorem reference_performs {nested : (name text : String) → Step}
    (hnested : ∀ text tally, hasMark text = true →
      (nested name text).Replaces s level tally name text) :
    (reference s nested name).Performs s [⟨level, .variable name⟩] := by
  intro tally
  cases hpick : s.pickText (tally.nextKey (.variable name)) name with
  | error problem =>
    have hmove : Move s level tally _ _ _ _ := .noValue hpick
    have hmoves := hmove.performs skip_performs
    unfold Setting.pickText at hpick
    simpa [reference, Step.report, hpick, Setting.malformed] using hmoves
  | ok text =>
    have hvalue : ∀ {events items after later finish},
        Places s level (tally.use (.variable name)) name text events items after →
          Moves s ⟨items, after⟩ later finish → Moves s ⟨[⟨level, .variable name⟩], tally⟩
            ((.use (tally.nextKey (.variable name)) :: ((s.malformed name).map .problem
              ++ .draw (tally.nextKey (.variable name)) :: events)) ++ later) finish := by
      intro events items after later finish hplaces hlater
      refine .move (.value hpick hplaces) ?_
      rw [List.append_nil]
      exact hlater
    unfold Setting.pickText at hpick
    cases hmark : hasMark text with
    | false =>
      have hmoves := hvalue (.plain hmark) (.refl _)
      simpa [reference, Step.report, hpick, Setting.malformed, hmark] using hmoves
    | true =>
      obtain ⟨events, items, after, later, hplaces, hlater, hevents⟩ :=
        hnested text (tally.use (.variable name)) hmark
      have hmoves := hvalue hplaces hlater
      simpa [reference, Step.report, hpick, Setting.malformed, hmark, hevents] using hmoves

/-- Walking a variable is what its move and the moves after it do, on every level. -/
theorem expandVariable_performs (levels : Nat) (hlevel : level + levels = s.maxLevel)
    (name : String) : (expandVariable s levels name).Performs s [⟨level, .variable name⟩] := by
  induction levels generalizing level name with
  | zero =>
    refine reference_performs fun text tally hmark => ?_
    exact leaveClosed_replaces hmark (.inl (by omega))
  | succ levels ih =>
    refine reference_performs fun text tally hmark => ?_
    have hopens : s.maxLevel - levels = level + 1 := by omega
    rw [hopens]
    refine openValue_replaces hmark (by omega) fun nodes => ?_
    exact walkNodes_performs (ih (by omega)) nodes

end

/-! ## 5. Variations -/

def Request.setting (r : Request) (limits : Limits) (seed : String) (index : Nat) : Setting :=
  ⟨r.catalog, r.context, limits.maxRecursionDepth, Draw.variationSeed seed index⟩

/-- Where every variation of a request begins. -/
def Request.start (r : Request) (limits : Limits) : Stage :=
  ⟨atLevel 0 r.template.nodes, .start limits.maxExpansions⟩

theorem exists_moves (r : Request) (limits : Limits) (seed : String) (index : Nat) :
    ∃ finish, finish.agenda = [] ∧
      Moves (r.setting limits seed index) (r.start limits) (r.trace limits seed index) finish :=
  ⟨_, rfl, walkNodes_performs (fun name => expandVariable_performs _ (Nat.zero_add _) name)
    r.template.nodes (.start limits.maxExpansions)⟩

/-- A stage that moves come to from the start is one the variation comes through. -/
theorem Moves.exists_trace_eq {r : Request} {limits : Limits} {seed : String} {index : Nat}
    {past : Trace} {stage : Stage}
    (h : Moves (r.setting limits seed index) (r.start limits) past stage) :
    ∃ later finish, finish.agenda = [] ∧ Moves (r.setting limits seed index) stage later finish ∧
      r.trace limits seed index = past ++ later := by
  obtain ⟨finish, hend, hmoves⟩ := exists_moves r limits seed index
  obtain ⟨later, htrace, hlater⟩ := h.rest hmoves hend
  exact ⟨later, finish, hend, hlater, htrace⟩

/-- The trace of a variation is that of the moves from its start until nothing is left. -/
theorem trace_eq_iff_moves (r : Request) (limits : Limits) (seed : String) (index : Nat)
    (trace : Trace) : r.trace limits seed index = trace ↔ ∃ finish, finish.agenda = [] ∧
      Moves (r.setting limits seed index) (r.start limits) trace finish := by
  obtain ⟨finish, hend, hmoves⟩ := exists_moves r limits seed index
  constructor
  · rintro rfl
    exact ⟨finish, hend, hmoves⟩
  · rintro ⟨finish', hend', hmoves'⟩
    exact (hmoves.unique hmoves' hend hend').1

end SeededText
