import SeededText.Proofs.Expansion.Bounds

/-!
# References beyond the limits

A value with marks is not opened when its reference stands in as many opened values as may stand
inside each other, or when as many values were opened as may be in one variation.  Such a reference
is cut off: the value's text is written as it is, and the variable is reported as running away,
unless it was reported before.

Three parts of the state decide this: the level, the budget and the list of reported variables.
`Setting.CutsOff` looks at a stage of the expansion for the first two, and `Move.quiet_or_cutsOff`
says that nothing else is ever reported as running away.  The third is an account that every move
keeps (`Reports`): a variable is on the list when it was there or a reference to it was left closed,
and it is reported when it comes on the list.
-/

namespace SeededText

/-! ## 1. What is cut off -/

/-- One of the variable's admitted values has the text. -/
def Catalog.Offers (c : Catalog) (context : Context) (name text : String) : Prop :=
  ∃ e value, c.get? name = some e ∧ value ∈ e.values ∧ Admits context value.condition ∧
    value.text = text

/-- A draw picks a text with marks for a reference on the level that is met with the tally, and a
limit keeps that text from being opened. -/
structure Setting.CutsOff (s : Setting) (level : Nat) (tally : Tally) (name text : String) :
    Prop where
  drawn : s.pickText (tally.nextKey (.variable name)) name = .ok text
  mark : hasMark text = true
  limit : s.maxLevel ≤ level ∨ tally.budget = 0

/-- What is noted for a reference that is cut off, before its text is written. -/
def Setting.cutNotes (s : Setting) (tally : Tally) (name : String) : Trace :=
  .use (tally.nextKey (.variable name)) ::
    ((s.malformed name).map .problem ++ .draw (tally.nextKey (.variable name)) :: .closed name ::
      if name ∈ tally.reported then [] else [.problem (.maxRecursionExceeded name s.maxLevel)])

/-- The tally after a variable is reported, if it was not before. -/
def Tally.report (tally : Tally) (name : String) : Tally :=
  if name ∈ tally.reported then tally else { tally with reported := name :: tally.reported }

/-- The problems that report the variable as running away. -/
def runawaysOf (name : String) (problems : List Problem) : List Problem :=
  problems.filter fun p => p.runaway? = some name

section

variable {s : Setting} {level : Nat} {tally middle after : Tally} {name text : String} {node : Node}
  {events later : Trace} {items : List Item}

theorem Tally.mem_reported_report {other : String} :
    other ∈ (tally.report name).reported ↔ other = name ∨ other ∈ tally.reported := by
  unfold Tally.report
  split
  · next hmem =>
    constructor
    · exact .inr
    · rintro (rfl | hother)
      · exact hmem
      · exact hother
  · exact List.mem_cons

theorem runawaysOf_append (name : String) (first second : List Problem) :
    runawaysOf name (first ++ second) = runawaysOf name first ++ runawaysOf name second :=
  List.filter_append ..

theorem runawaysOf_of_tame {problems : List Problem} (h : Tame problems) (name : String) :
    runawaysOf name problems = [] := by
  refine List.filter_eq_nil_iff.2 fun p hp => ?_
  rw [h p hp]
  simp

theorem tame_malformed (s : Setting) (name : String) : Tame (s.malformed name) := by
  intro p hp
  obtain ⟨e, -, rfl⟩ := List.mem_map.1 hp
  rfl

/-- The text of an only value is offered if its condition admits it. -/
theorem offers_of_single {c : Catalog} {context : Context} {e : Entry} {value : Candidate}
    (hget : c.get? name = some e) (hvalues : e.values = [value])
    (hadmits : Admits context value.condition) :
    c.Offers context name text ↔ text = value.text := by
  constructor
  · rintro ⟨e', value', hget', hmem, -, rfl⟩
    rw [hget] at hget'
    cases hget'
    rw [hvalues, List.mem_singleton] at hmem
    rw [hmem]
  · rintro rfl
    exact ⟨e, value, hget, by rw [hvalues]; exact List.mem_cons_self, hadmits, rfl⟩

/-- Where a text is offered, one that is offered is picked. -/
theorem Catalog.Offers.exists_pickText (h : s.catalog.Offers s.context name text)
    (key : Draw.Key) :
    ∃ picked, s.catalog.Offers s.context name picked ∧ s.pickText key name = .ok picked := by
  obtain ⟨e, value, hget, hmem, hadmits, -⟩ := h
  rcases pick_eligible hget (key.material s.material) with
    ⟨hnone, -⟩ | ⟨picked, hpicked, hadmits', hpick⟩
  · exact absurd hadmits (hnone value hmem)
  · exact ⟨picked.text, ⟨e, picked, hget, hpicked, hadmits', rfl⟩, hpick⟩

/-- The only text that is offered is picked. -/
theorem Catalog.Offers.pickText (h : s.catalog.Offers s.context name text)
    (honly : ∀ other, s.catalog.Offers s.context name other → other = text) (key : Draw.Key) :
    s.pickText key name = .ok text := by
  obtain ⟨picked, hpicked, hpick⟩ := h.exists_pickText key
  rw [hpick, honly picked hpicked]

/-- A variable without a text is reported as something else than running away. -/
theorem runaway?_of_pickText {key : Draw.Key} {problem : Problem}
    (h : s.pickText key name = .error problem) : problem.runaway? = none := by
  unfold Setting.pickText at h
  cases hget : s.catalog.get? name with
  | none =>
    rw [eligible_unknown hget] at h
    cases h
    rfl
  | some e =>
    rcases pick_eligible hget (key.material s.material) with ⟨-, hpick⟩ | ⟨value, -, -, hpick⟩
    · rw [hpick] at h
      cases h
      rfl
    · rw [hpick] at h
      cases h

/-- The problems of a slot's conditions come before those of what is done with the slot. -/
theorem problems_noted (key : Draw.Key) (problems : List Problem) (events : Trace) :
    Trace.problems (.use key :: (problems.map .problem ++ events))
      = problems ++ Trace.problems events := by
  simp [Trace.problems_cons, Trace.problem?]

/-! ### The notes -/

/-- They write nothing and open nothing. -/
theorem cutNotes_silent (s : Setting) (tally : Tally) (name : String) :
    Trace.text (s.cutNotes tally name) = "" ∧ Trace.openings (s.cutNotes tally name) = 0 := by
  unfold Setting.cutNotes
  split <;> exact ⟨by simp [Trace.text_cons, Trace.written?], by simp [Trace.isOpening,
    Trace.openings]⟩

theorem closed_mem_cutNotes {other : String} :
    .closed other ∈ s.cutNotes tally name ↔ other = name := by
  unfold Setting.cutNotes
  split <;> simp

/-- Of the problems in them, only the last one reports a variable as running away. -/
theorem runawaysOf_cutNotes (s : Setting) (tally : Tally) (name other : String) :
    runawaysOf other (Trace.problems (s.cutNotes tally name))
      = if other = name ∧ name ∉ tally.reported then [.maxRecursionExceeded name s.maxLevel]
        else [] := by
  rw [Setting.cutNotes, problems_noted, runawaysOf_append,
    runawaysOf_of_tame (tame_malformed s name), List.nil_append]
  by_cases hmem : name ∈ tally.reported
  · simp [hmem, Trace.problems_cons, Trace.problem?, runawaysOf]
  · by_cases hother : other = name
    · simp [hmem, hother, Trace.problems_cons, Trace.problem?, runawaysOf, Problem.runaway?]
    · simp [hmem, hother, Ne.symm hother, Trace.problems_cons, Trace.problem?, runawaysOf,
        Problem.runaway?]

/-! ### The move -/

/-- A reference that is cut off leaves the notes and its text, and nothing to be walked. -/
theorem Setting.CutsOff.move (h : s.CutsOff level tally name text) :
    Move s level tally (.variable name) (s.cutNotes tally name ++ [.text text]) []
      ((tally.use (.variable name)).report name) := by
  have hreported : (tally.use (.variable name)).reported = tally.reported := rfl
  unfold Setting.cutNotes Tally.report
  by_cases hmem : name ∈ tally.reported
  · have hmove := Move.value h.drawn (.closedAgain h.mark h.limit hmem)
    simpa [hmem, hreported] using hmove
  · have hmove := Move.value h.drawn (.closed h.mark h.limit hmem)
    simpa [hmem, hreported] using hmove

/-- A move leaves nothing closed and reports nothing as running away, or its node is a reference that
is cut off. -/
theorem Move.quiet_or_cutsOff (h : Move s level tally node events items after) :
    (Tame (Trace.problems events) ∧ (∀ name, .closed name ∉ events) ∧
      after.reported = tally.reported) ∨
    ∃ name text, node = .variable name ∧ s.CutsOff level tally name text := by
  cases h with
  | literal | thenBranch | elseBranch => simp [Tame, Trace.problems_cons, Trace.problem?]
  | malformed => simp [Tame, Trace.problems_cons, Trace.problem?, Problem.runaway?]
  | option | noOption =>
    refine .inl ⟨?_, by simp, rfl⟩
    rw [problems_noted, tame_append]
    exact ⟨tame_unreadable _ _, by simp [Tame, Trace.problems_cons, Trace.problem?,
      Problem.runaway?]⟩
  | noValue hpick =>
    refine .inl ⟨?_, by simp, rfl⟩
    rw [problems_noted, tame_append]
    exact ⟨tame_malformed _ _, by simp [Tame, Trace.problems_cons, Trace.problem?,
      runaway?_of_pickText hpick]⟩
  | @value name text events items after hpick hplaces =>
    cases hplaces with
    | closed hmark hlimit | closedAgain hmark hlimit =>
      exact .inr ⟨name, text, rfl, hpick, hmark, hlimit⟩
    | plain | opened | invalid =>
      refine .inl ⟨?_, by simp, rfl⟩
      rw [problems_noted, tame_append]
      exact ⟨tame_malformed _ _, by simp [Tame, Trace.problems_cons, Trace.problem?,
        Problem.runaway?]⟩

end

/-! ## 2. The account -/

/-- What becomes of a variable in the list of reported ones, and of its reports, on the way from one
tally to another. -/
structure Reports (s : Setting) (name : String) (tally : Tally) (events : Trace) (after : Tally) :
    Prop where
  reported : name ∈ after.reported ↔ name ∈ tally.reported ∨ .closed name ∈ events
  problems : runawaysOf name (Trace.problems events)
    = if name ∉ tally.reported ∧ .closed name ∈ events then
        [.maxRecursionExceeded name s.maxLevel]
      else []

section

variable {s : Setting} {level : Nat} {tally middle after : Tally} {name : String} {node : Node}
  {events later : Trace} {items : List Item} {start finish : Stage}

theorem Reports.refl (s : Setting) (name : String) (tally : Tally) :
    Reports s name tally [] tally where
  reported := by simp
  problems := by simp [runawaysOf]

theorem Reports.trans (h : Reports s name tally events middle)
    (h' : Reports s name middle later after) : Reports s name tally (events ++ later) after where
  reported := by rw [h'.reported, h.reported, List.mem_append, or_assoc]
  problems := by
    have hmiddle := h.reported
    rw [Trace.problems_append, runawaysOf_append, h.problems, h'.problems]
    by_cases hreported : name ∈ tally.reported
    · simp [hmiddle, hreported]
    · by_cases hclosed : .closed name ∈ events
      · simp [hmiddle, hreported, hclosed]
      · simp [hmiddle, hreported, hclosed]

/-- Every move keeps the account, of every variable. -/
theorem Move.reports (h : Move s level tally node events items after) (name : String) :
    Reports s name tally events after := by
  rcases h.quiet_or_cutsOff with ⟨htame, hclosed, hreported⟩ | ⟨other, text, rfl, hcut⟩
  · refine ⟨by simp [hreported, hclosed], ?_⟩
    rw [runawaysOf_of_tame htame, if_neg fun hname => hclosed name hname.2]
  · obtain ⟨rfl, -, rfl⟩ := h.unique hcut.move
    have hclosed : .closed name ∈ s.cutNotes tally other ++ [.text text] ↔ name = other := by
      simp [closed_mem_cutNotes]
    refine ⟨?_, ?_⟩
    · rw [Tally.mem_reported_report, hclosed, or_comm]
      rfl
    · have hwritten : Trace.problems [.text text] = [] := rfl
      rw [Trace.problems_append, runawaysOf_append, runawaysOf_cutNotes, hwritten]
      simp only [hclosed]
      by_cases hother : name = other
      · simp [hother, runawaysOf]
      · simp [hother, runawaysOf]

/-- All moves together keep it. -/
theorem Moves.reports (h : Moves s start events finish) (name : String) :
    Reports s name start.tally events finish.tally := by
  induction h with
  | refl stage => exact .refl s name stage.tally
  | move hmove _ ih => exact (hmove.reports name).trans ih

/-! ## 3. Where references are cut off -/

/-- What leaves values of a variable closed comes to a reference to it that is cut off. -/
theorem Moves.exists_cutsOff (h : Moves s start events finish) (hclosed : .closed name ∈ events) :
    ∃ past level agenda tally text, Moves s start past ⟨⟨level, .variable name⟩ :: agenda, tally⟩ ∧
      s.CutsOff level tally name text := by
  induction h with
  | refl => cases hclosed
  | @move level node agenda items tally after events later finish hmove _ ih =>
    rcases List.mem_append.1 hclosed with hfirst | hlater
    · rcases hmove.quiet_or_cutsOff with ⟨-, hnone, -⟩ | ⟨other, text, rfl, hcut⟩
      · exact absurd hfirst (hnone name)
      · obtain ⟨rfl, -, -⟩ := hmove.unique hcut.move
        obtain rfl : name = other := by simpa [closed_mem_cutNotes] using hfirst
        exact ⟨[], level, agenda, tally, text, .refl _, hcut⟩
    · obtain ⟨past, level, agenda, tally, text, hpast, hcut⟩ := ih hlater
      exact ⟨_, level, agenda, tally, text, .move hmove hpast, hcut⟩

/-- At a reference that is cut off the text stands after the notes, and then comes what the rest of
the agenda does. -/
theorem Setting.CutsOff.rest {agenda : List Item} {past : Trace} {text : String}
    (h : s.CutsOff level tally name text)
    (hpast : Moves s start past ⟨⟨level, .variable name⟩ :: agenda, tally⟩)
    (hmoves : Moves s start events finish) (hend : finish.agenda = []) :
    ∃ later, events = past ++ (s.cutNotes tally name ++ .text text :: later) ∧
      Moves s ⟨agenda, (tally.use (.variable name)).report name⟩ later finish := by
  obtain ⟨rest, rfl, hrest⟩ := hpast.rest hmoves hend
  cases hrest with
  | refl => cases hend
  | move hmove hlater =>
    obtain ⟨rfl, rfl, rfl⟩ := hmove.unique h.move
    refine ⟨_, ?_, hlater⟩
    rw [List.append_assoc]
    rfl

end

/-! ## 4. Variations -/

/-- In a variation, after the events in the past, a reference to the variable is met in so many opened
values, a draw picks a text with marks for it, and one of the limits is reached. -/
structure Request.CutsOff (r : Request) (limits : Limits) (seed : String) (index : Nat)
    (name text : String) (past : Trace) (level : Nat) (agenda : List Item) (tally : Tally) :
    Prop where
  reached : Moves (r.setting limits seed index) (r.start limits) past
    ⟨⟨level, .variable name⟩ :: agenda, tally⟩
  drawn : (r.setting limits seed index).pickText (tally.nextKey (.variable name)) name = .ok text
  mark : hasMark text = true
  limit : limits.maxRecursionDepth ≤ level ∨ limits.maxExpansions ≤ past.openings

/-- A reference to the variable is cut off somewhere in the variation. -/
def Request.RunsAway (r : Request) (limits : Limits) (seed : String) (index : Nat) (name : String) :
    Prop :=
  ∃ text past level agenda tally, r.CutsOff limits seed index name text past level agenda tally

section

variable {r : Request} {limits : Limits} {seed name text : String} {index level : Nat}
  {past later : Trace} {agenda : List Item} {tally : Tally}

theorem Request.CutsOff.setting (h : r.CutsOff limits seed index name text past level agenda tally) :
    (r.setting limits seed index).CutsOff level tally name text := by
  have hbudget := openings_add_budget h.reached
  dsimp only at hbudget
  exact ⟨h.drawn, h.mark, h.limit.imp_right fun hspent => by omega⟩

theorem Setting.CutsOff.request
    (h : (r.setting limits seed index).CutsOff level tally name text)
    (hreached : Moves (r.setting limits seed index) (r.start limits) past
      ⟨⟨level, .variable name⟩ :: agenda, tally⟩) :
    r.CutsOff limits seed index name text past level agenda tally := by
  have hbudget := openings_add_budget hreached
  dsimp only at hbudget
  exact ⟨hreached, h.drawn, h.mark, h.limit.imp_right fun hspent => by omega⟩

/-- The text is one that is offered for the variable. -/
theorem Request.CutsOff.offers (h : r.CutsOff limits seed index name text past level agenda tally) :
    r.catalog.Offers r.context name text :=
  pickText_eq_ok h.drawn

/-- A reference to the variable is cut off if and only if one of its values is left closed. -/
theorem runsAway_iff_closed :
    r.RunsAway limits seed index name ↔ .closed name ∈ r.trace limits seed index := by
  obtain ⟨finish, hend, hmoves⟩ := exists_moves r limits seed index
  constructor
  · rintro ⟨text, past, level, agenda, tally, hcut⟩
    obtain ⟨later, htrace, -⟩ := hcut.setting.rest hcut.reached hmoves hend
    rw [htrace]
    simp [closed_mem_cutNotes]
  · intro hclosed
    obtain ⟨past, level, agenda, tally, text, hreached, hcut⟩ := hmoves.exists_cutsOff hclosed
    exact ⟨text, past, level, agenda, tally, hcut.request hreached⟩

/-- A variable is reported as running away once if a value of it is left closed, and not otherwise. -/
theorem runawaysOf_variation (r : Request) (limits : Limits) (seed : String) (index : Nat)
    (name : String) :
    runawaysOf name (r.variation limits seed index).problems
      = if .closed name ∈ r.trace limits seed index then
          [.maxRecursionExceeded name limits.maxRecursionDepth]
        else [] := by
  obtain ⟨finish, -, hmoves⟩ := exists_moves r limits seed index
  have hnew : name ∉ (r.start limits).tally.reported := List.not_mem_nil
  have hproblems := (hmoves.reports name).problems
  simp only [hnew, not_false_eq_true, true_and] at hproblems
  exact hproblems

/-- It is reported if and only if a reference to it is cut off, and then with the nesting limit. -/
theorem mem_problems_iff_runsAway {limit : Nat} :
    .maxRecursionExceeded name limit ∈ (r.variation limits seed index).problems ↔
      r.RunsAway limits seed index name ∧ limit = limits.maxRecursionDepth := by
  have hmem : .maxRecursionExceeded name limit ∈ (r.variation limits seed index).problems ↔
      .maxRecursionExceeded name limit
        ∈ runawaysOf name (r.variation limits seed index).problems := by
    simp [runawaysOf, Problem.runaway?]
  rw [hmem, runawaysOf_variation, runsAway_iff_closed]
  split
  · next hclosed => simp [hclosed]
  · next hclosed => simp [hclosed]

theorem reported_iff_runsAway :
    (∃ limit, .maxRecursionExceeded name limit ∈ (r.variation limits seed index).problems) ↔
      r.RunsAway limits seed index name := by
  simp [mem_problems_iff_runsAway]

end

/-- Of every variable: it is reported as running away once if a reference to it is cut off, and not
otherwise.  At a reference that is cut off its text is written in full, after notes that write
nothing, and before what the rest of the agenda writes.  And once as many values were opened as may
be, no other is. -/
theorem runaways_reported_once (r : Request) (limits : Limits) (seed : String) (index : Nat)
    (name : String) :
    (r.RunsAway limits seed index name → runawaysOf name (r.variation limits seed index).problems
      = [.maxRecursionExceeded name limits.maxRecursionDepth]) ∧
    (¬ r.RunsAway limits seed index name →
      runawaysOf name (r.variation limits seed index).problems = []) ∧
    (∀ text past level agenda tally,
      r.CutsOff limits seed index name text past level agenda tally →
        ∃ notes later after finish, notes.text = "" ∧ notes.openings = 0 ∧
          Moves (r.setting limits seed index) ⟨agenda, after⟩ later finish ∧ finish.agenda = [] ∧
          r.trace limits seed index = past ++ (notes ++ .text text :: later) ∧
          (r.variation limits seed index).text = past.text ++ text ++ later.text) ∧
    (∀ past later, r.trace limits seed index = past ++ later →
      limits.maxExpansions ≤ past.openings → later.openings = 0) := by
  refine ⟨fun hruns => ?_, fun hruns => ?_, ?_, ?_⟩
  · rw [runawaysOf_variation, if_pos (runsAway_iff_closed.1 hruns)]
  · rw [runawaysOf_variation, if_neg fun hclosed => hruns (runsAway_iff_closed.2 hclosed)]
  · intro text past level agenda tally hcut
    obtain ⟨finish, hend, hmoves⟩ := exists_moves r limits seed index
    obtain ⟨later, htrace, hlater⟩ := hcut.setting.rest hcut.reached hmoves hend
    obtain ⟨hsilent, hopenings⟩ :=
      cutNotes_silent (r.setting limits seed index) tally name
    refine ⟨_, later, _, finish, hsilent, hopenings, hlater, hend, htrace, ?_⟩
    rw [Request.variation, htrace, Trace.text_append, Trace.text_append, hsilent, Trace.text_cons,
      String.empty_append, ← String.append_assoc]
    rfl
  · intro past later htrace hspent
    obtain ⟨finish, -, hmoves⟩ := exists_moves r limits seed index
    have hbudget := openings_add_budget hmoves
    rw [htrace, Trace.openings_append] at hbudget
    omega

/-- A variable whose only value refers to it stands twice, and one with a plain value between. -/
def echoes : Request where
  template := ⟨[.variable "echo", .variable "calm", .variable "echo"]⟩
  catalog := (Catalog.empty.insertValid ⟨"echo", none, [⟨"\x7b\x7becho\x7d\x7d", 1, none⟩]⟩
    (by decide)).insertValid ⟨"calm", none, [⟨"calm", 1, none⟩]⟩ (by decide)
  context := .empty

/-- With no level at all both references to the first variable are cut off, and it is reported once;
the text of the first one stands at the beginning.  The plain value is not reported. -/
theorem runaways_reported_once_echoes :
    runawaysOf "echo" (echoes.variation ⟨0, 100, 5⟩ "seed" 0).problems
      = [.maxRecursionExceeded "echo" 0] ∧
    runawaysOf "calm" (echoes.variation ⟨0, 100, 5⟩ "seed" 0).problems = [] ∧
    ∃ rest : String, (echoes.variation ⟨0, 100, 5⟩ "seed" 0).text
      = "" ++ "\x7b\x7becho\x7d\x7d" ++ rest := by
  have hecho : ∀ text, echoes.catalog.Offers echoes.context "echo" text ↔
      text = Candidate.text ⟨"\x7b\x7becho\x7d\x7d", 1, none⟩ :=
    fun text => offers_of_single rfl rfl admits_none
  have hcut : echoes.CutsOff ⟨0, 100, 5⟩ "seed" 0 "echo" "\x7b\x7becho\x7d\x7d" [] 0
      (atLevel 0 [.variable "calm", .variable "echo"]) (.start 5) :=
    ⟨.refl _, ((hecho _).2 rfl).pickText (fun other => (hecho other).1) _, by decide,
      .inl (Nat.le_refl 0)⟩
  have hcalm : ¬ echoes.RunsAway ⟨0, 100, 5⟩ "seed" 0 "calm" := by
    rintro ⟨text, past, level, agenda, tally, hcalm⟩
    have hmark := hcalm.mark
    rw [(offers_of_single rfl rfl admits_none).1 hcalm.offers] at hmark
    cases hmark
  obtain ⟨honce, -, hplace, -⟩ := runaways_reported_once echoes ⟨0, 100, 5⟩ "seed" 0 "echo"
  obtain ⟨-, later, -, -, -, -, -, -, -, htext⟩ := hplace _ _ _ _ _ hcut
  exact ⟨honce ⟨_, _, _, _, _, hcut⟩,
    (runaways_reported_once echoes ⟨0, 100, 5⟩ "seed" 0 "calm").2.1 hcalm, _, htext⟩

end SeededText
