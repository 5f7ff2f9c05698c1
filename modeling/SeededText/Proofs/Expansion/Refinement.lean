import SeededText.Proofs.Expansion.Selection

/-!
# Expanding gives one of the results

The walk of nodes is deterministic: every draw is decided by the seed material.  Here it is held
against the meaning, which leaves the draws open.  `Step.Leaves` says that the trace of a step reads
as a result, and `Realizes` that a step leaves one of some results from whatever tally, as long as
the tally's budget is what the values opened so far have left of it.

The walk reports a variable as running away once, the meaning each time a value is left closed.
`reportOnce` is the difference.
-/

namespace SeededText

/-! ## 1. Reporting once -/

/-- The problems without those that report a variable as running away again. -/
def reportOnce (reported : List String) : List Problem → List Problem
  | [] => []
  | p :: ps =>
    match p.runaway? with
    | none => p :: reportOnce reported ps
    | some name =>
      if reported.contains name then reportOnce reported ps
      else p :: reportOnce (name :: reported) ps

/-- The variables that were reported after the problems. -/
def reportedAfter (reported : List String) : List Problem → List String
  | [] => reported
  | p :: ps =>
    match p.runaway? with
    | none => reportedAfter reported ps
    | some name =>
      if reported.contains name then reportedAfter reported ps
      else reportedAfter (name :: reported) ps

theorem reportOnce_append (reported : List String) (ps qs : List Problem) :
    reportOnce reported (ps ++ qs)
      = reportOnce reported ps ++ reportOnce (reportedAfter reported ps) qs := by
  induction ps generalizing reported with
  | nil => rfl
  | cons p ps ih =>
    cases hp : p.runaway? with
    | none => simp [reportOnce, reportedAfter, hp, ih]
    | some name =>
      by_cases hname : reported.contains name = true
      · simp only [List.cons_append, reportOnce, reportedAfter, hp, hname, if_true, ih]
      · simp only [List.cons_append, reportOnce, reportedAfter, hp, hname, ih]
        rfl

theorem reportedAfter_append (reported : List String) (ps qs : List Problem) :
    reportedAfter reported (ps ++ qs) = reportedAfter (reportedAfter reported ps) qs := by
  induction ps generalizing reported with
  | nil => rfl
  | cons p ps ih =>
    cases hp : p.runaway? with
    | none => simp [reportedAfter, hp, ih]
    | some name =>
      by_cases hname : reported.contains name = true
      · simp only [List.cons_append, reportedAfter, hp, hname, if_true, ih]
      · simp only [List.cons_append, reportedAfter, hp, hname, ih]
        rfl

theorem reportOnce_of_tame {ps : List Problem} (h : Tame ps) (reported : List String) :
    reportOnce reported ps = ps ∧ reportedAfter reported ps = reported := by
  induction ps with
  | nil => exact ⟨rfl, rfl⟩
  | cons p ps ih =>
    have hp := h p List.mem_cons_self
    obtain ⟨honce, hafter⟩ := ih fun q hq => h q (List.mem_cons_of_mem p hq)
    simp [reportOnce, reportedAfter, hp, honce, hafter]

/-- A variable that the problems report as running away is still reported when each is reported once,
unless it was before. -/
theorem exists_mem_reportOnce {reported : List String} {problems : List Problem} {p : Problem}
    {name : String} (hmem : p ∈ problems) (hname : p.runaway? = some name)
    (hnew : name ∉ reported) : ∃ q ∈ reportOnce reported problems, q.runaway? = some name := by
  induction problems generalizing reported with
  | nil => cases hmem
  | cons first problems ih =>
    by_cases hit : first.runaway? = some name
    · refine ⟨first, ?_, hit⟩
      simp [reportOnce, hit, hnew]
    · have hlater : p ∈ problems :=
        (List.mem_cons.1 hmem).resolve_left fun heq => hit (heq ▸ hname)
      cases hfirst : first.runaway? with
      | none =>
        obtain ⟨q, hq, hq'⟩ := ih hlater hnew
        refine ⟨q, ?_, hq'⟩
        simp only [reportOnce, hfirst]
        exact List.mem_cons_of_mem _ hq
      | some other =>
        have hne : name ≠ other := fun heq => hit (heq ▸ hfirst)
        by_cases hother : reported.contains other = true
        · simp only [reportOnce, hfirst, hother, if_true]
          exact ih hlater hnew
        · obtain ⟨q, hq, hq'⟩ := @ih (other :: reported) hlater (by simp [hne, hnew])
          refine ⟨q, ?_, hq'⟩
          simp only [reportOnce, hfirst, hother]
          exact List.mem_cons_of_mem _ hq

/-- A variable that is reported at all is reported once. -/
theorem tame_of_tame_reportOnce {ps : List Problem} {reported : List String}
    (h : Tame (reportOnce reported ps)) :
    ∀ p ∈ ps, ∀ name, p.runaway? = some name → name ∈ reported := by
  intro p hp name hname
  by_contra hnew
  obtain ⟨q, hq, hname'⟩ := exists_mem_reportOnce hp hname hnew
  rw [h q hq] at hname'
  cases hname'

/-! ## 2. Traces that read as results -/

namespace Trace

@[simp]
theorem text_nil : text [] = "" :=
  rfl

@[simp]
theorem problems_nil : problems [] = [] :=
  rfl

theorem text_cons (event : Event) (trace : Trace) :
    text (event :: trace) = (written? event).getD "" ++ text trace := by
  cases h : written? event <;> simp [text, h]

theorem problems_cons (event : Event) (trace : Trace) :
    problems (event :: trace) = (problem? event).toList ++ problems trace := by
  cases h : problem? event <;> simp [problems, h]

@[simp]
theorem text_problems (ps : List Problem) : text (ps.map .problem) = "" := by
  induction ps with
  | nil => rfl
  | cons p ps ih => exact ih

@[simp]
theorem problems_problems (ps : List Problem) : problems (ps.map .problem) = ps := by
  induction ps with
  | nil => rfl
  | cons p ps ih => exact congrArg (p :: ·) ih

end Trace

/-- From the tally the step leaves a trace that reads as the result, and takes as much of the budget
as the result has opened. -/
structure Step.Leaves (step : Step) (tally : Tally) (r : Result) : Prop where
  text : (step.events tally).text = r.text
  problems : (step.events tally).problems = reportOnce tally.reported r.problems
  reported : (step.after tally).reported = reportedAfter tally.reported r.problems
  budget : r.opened + (step.after tally).budget = tally.budget

theorem Step.leaves_ask {choose : Tally → Step} {tally : Tally} {r : Result}
    (h : (choose tally).Leaves tally r) : (Step.ask choose).Leaves tally r :=
  ⟨h.text, h.problems, h.reported, h.budget⟩

theorem Step.Leaves.andThen {first second : Step} {tally : Tally} {r r' : Result}
    (h : first.Leaves tally r) (h' : second.Leaves (first.after tally) r') :
    (first.andThen second).Leaves tally (r ++ r') where
  text := by simp [h.text, h'.text]
  problems := by simp [h.problems, h'.problems, h.reported, reportOnce_append]
  reported := by simp [h'.reported, h.reported, reportedAfter_append]
  budget := by
    have hbudget := h.budget
    have hbudget' := h'.budget
    rw [Step.after_andThen, Result.opened_append]
    omega

/-- Events that leave the tally alone. -/
theorem Step.leaves_emit {events : Trace} {r : Result} (tally : Tally)
    (htext : events.text = r.text) (hproblems : events.problems = r.problems)
    (htame : Tame r.problems) (hopened : r.opened = 0) :
    (Step.emit events).Leaves tally r where
  text := by simp [htext]
  problems := by simp [hproblems, (reportOnce_of_tame htame _).1]
  reported := by simp [(reportOnce_of_tame htame _).2]
  budget := by simp [hopened]

/-- From every tally with the budget that so many opened values have left, the step leaves one of
the results. -/
def Realizes (total : Nat) (step : Step) (results : (opened : Nat) → Result → Prop) : Prop :=
  ∀ tally opened, opened + tally.budget = total → ∃ r, results opened r ∧ step.Leaves tally r

section

variable {total : Nat} {step first second : Step} {results results' : Nat → Result → Prop}

theorem Realizes.mono (h : Realizes total step results)
    (hsub : ∀ opened r, results opened r → results' opened r) : Realizes total step results' := by
  intro tally opened hbudget
  obtain ⟨r, hr, hleaves⟩ := h tally opened hbudget
  exact ⟨r, hsub opened r hr, hleaves⟩

theorem Realizes.andThen (h : Realizes total first results) (h' : Realizes total second results') :
    Realizes total (first.andThen second) fun opened r =>
      ∃ r₁ r₂, results opened r₁ ∧ results' (opened + r₁.opened) r₂ ∧ r = r₁ ++ r₂ := by
  intro tally opened hbudget
  obtain ⟨r₁, hr₁, hleaves₁⟩ := h tally opened hbudget
  have hbudget₁ := hleaves₁.budget
  obtain ⟨r₂, hr₂, hleaves₂⟩ := h' (first.after tally) (opened + r₁.opened) (by omega)
  exact ⟨r₁ ++ r₂, ⟨r₁, r₂, hr₁, hr₂, rfl⟩, hleaves₁.andThen hleaves₂⟩

theorem realizes_emit {events : Trace} {r : Result} (htext : events.text = r.text)
    (hproblems : events.problems = r.problems) (htame : Tame r.problems) (hopened : r.opened = 0) :
    Realizes total (.emit events) fun _ r' => r' = r := fun tally _ _ =>
  ⟨r, rfl, Step.leaves_emit tally htext hproblems htame hopened⟩

theorem realizes_report {ps : List Problem} (h : Tame ps) :
    Realizes total (.report ps) fun _ r => r = .report ps :=
  realizes_emit (by simp [Result.report]) (by simp [Result.report]) h rfl

theorem realizes_text (text : String) :
    Realizes total (.emit [.text text]) fun _ r => r = ⟨text, [], 0⟩ :=
  realizes_emit (by simp [Trace.text_cons, Trace.written?]) rfl (fun _ hp => nomatch hp) rfl

/-- A problem is recorded and a text stands in the place. -/
theorem realizes_problem_text {p : Problem} (h : p.runaway? = none) (text : String) :
    Realizes total (.emit [.problem p, .text text]) fun _ r => r = ⟨text, [p], 0⟩ :=
  realizes_emit (by simp [Trace.text_cons, Trace.written?])
    (by simp [Trace.problems_cons, Trace.problem?]) (tame_singleton h) rfl

/-- Events that neither write nor report change nothing. -/
theorem Realizes.after_emit {events : Trace} (h : Realizes total step results)
    (htext : events.text = "") (hproblems : events.problems = []) :
    Realizes total ((Step.emit events).andThen step) results := by
  have hemit : Realizes total (.emit events) fun _ r => r = .report [] :=
    realizes_emit htext hproblems (fun _ hp => nomatch hp) rfl
  refine (hemit.andThen h).mono fun opened r hr => ?_
  obtain ⟨r₁, r₂, rfl, hr₂, rfl⟩ := hr
  simpa using hr₂

theorem realizes_useSlot {slot : Draw.Slot} {next : Draw.Key → Step}
    (h : ∀ key, Realizes total (next key) results) :
    Realizes total (.useSlot slot next) results := by
  intro tally opened hbudget
  have hnext : Realizes total ((Step.emit [.use (tally.nextKey slot)]).andThen
      (next (tally.nextKey slot))) results := (h (tally.nextKey slot)).after_emit rfl rfl
  obtain ⟨r, hr, hleaves⟩ := hnext { tally with uses := tally.nextKey slot :: tally.uses } opened
    hbudget
  exact ⟨r, hr, hleaves.text, hleaves.problems, hleaves.reported, hleaves.budget⟩

end

/-! ## 3. Nodes -/

theorem tame_unreadable (context : Context) (conditions : List (Option String)) :
    Tame (unreadable context conditions) := by
  induction conditions with
  | nil => exact fun p hp => nomatch hp
  | cons condition conditions ih =>
    cases condition with
    | none => exact ih
    | some source =>
      rw [unreadable]
      split
      · exact ih
      · intro p hp
        rcases List.mem_cons.1 hp with rfl | hp
        · rfl
        · exact ih p hp

/-- The surroundings of an expansion that may open so many values in all. -/
def Setting.surroundings (s : Setting) (total : Nat) : Surroundings where
  catalog := s.catalog
  context := s.context
  mayOpen level opened := level ≤ s.maxLevel ∧ opened < total
  limit := s.maxLevel

section

variable {s : Setting} {total level : Nat} {expand : String → Step}

theorem chooseBranch_realizes {condition : String} {thenBranch : List Node}
    {elseBranch : Option (List Node)} {thenStep elseStep : Step}
    (hthen : Realizes total thenStep fun opened =>
      Yields (s.surroundings total) level opened thenBranch)
    (helse : Realizes total elseStep fun opened =>
      Yields (s.surroundings total) level opened (elseBranch.getD [])) :
    Realizes total (chooseBranch s condition thenStep elseStep) fun opened =>
      NodeYields (s.surroundings total) level opened
        (.conditional condition thenBranch elseBranch) := by
  unfold chooseBranch
  split
  · next hc => exact hthen.mono fun opened r hr => .thenBranch hc hr
  · next hc => exact helse.mono fun opened r hr => .elseBranch hc hr
  · next e hc =>
    refine ((realizes_report (tame_singleton rfl)).andThen helse).mono fun opened r hr => ?_
    obtain ⟨r₁, r₂, rfl, hr₂, rfl⟩ := hr
    exact .malformed hc hr₂

theorem walkOptions_eq_map (options : List (Choice Node)) :
    walkOptions s expand options
      = options.map fun option => ⟨option.condition, walkNodes s expand option.body⟩ := by
  induction options with
  | nil => rfl
  | cons option options ih => rw [walkOptions, ih]; rfl

theorem chooseOption_realizes {index : Nat} {options : List (Choice Node)}
    (hbody : ∀ option ∈ options, Realizes total (walkNodes s expand option.body) fun opened =>
      Yields (s.surroundings total) level opened option.body) :
    Realizes total (chooseOption s index (walkOptions s expand options)) fun opened =>
      NodeYields (s.surroundings total) level opened (.optionGroup index options) := by
  refine realizes_useSlot fun key => ?_
  have hproblems : (Admission.of s.context Branch.condition
      (walkOptions s expand options)).problems
      = unreadable s.context (options.map Choice.condition) := by
    rw [problems_of, walkOptions_eq_map, List.map_map]
    rfl
  have hadmitted : ∀ branch, branch ∈ (Admission.of s.context Branch.condition
      (walkOptions s expand options)).admitted ↔ ∃ option ∈ options,
        branch = ⟨option.condition, walkNodes s expand option.body⟩ ∧
          Admits s.context option.condition := by
    intro branch
    rw [mem_admitted, walkOptions_eq_map, List.mem_map]
    constructor
    · rintro ⟨⟨option, hmem, rfl⟩, hadmits⟩
      exact ⟨option, hmem, rfl, hadmits⟩
    · rintro ⟨option, hmem, rfl, hadmits⟩
      exact ⟨⟨option, hmem, rfl⟩, hadmits⟩
  dsimp only
  rw [hproblems]
  -- from here on only what is admitted matters, not how it was found
  generalize (Admission.of s.context Branch.condition
    (walkOptions s expand options)).admitted = admitted at hadmitted ⊢
  have hreport : Realizes total (.report (unreadable s.context (options.map Choice.condition)))
      fun _ r => r = .report (unreadable s.context (options.map Choice.condition)) :=
    realizes_report (tame_unreadable _ _)
  rcases pick_branch admitted (key.material s.material) with ⟨rfl, hpick⟩ | ⟨branch, hmem, hpick⟩
  · rw [hpick]
    refine (hreport.andThen (realizes_report (tame_singleton rfl))).mono fun opened r hr => ?_
    obtain ⟨r₁, r₂, rfl, rfl, rfl⟩ := hr
    refine .noOption fun option hoption hadmits => ?_
    exact absurd ((hadmitted _).2 ⟨option, hoption, rfl, hadmits⟩) List.not_mem_nil
  · rw [hpick]
    obtain ⟨option, hoption, rfl, hadmits⟩ := (hadmitted branch).1 hmem
    refine (hreport.andThen ((hbody option hoption).after_emit rfl rfl)).mono fun opened r hr => ?_
    obtain ⟨r₁, r₂, rfl, hr₂, rfl⟩ := hr
    exact .option hoption hadmits hr₂

mutual

/-- The walk of a node comes to one of the node's results, if the walk of a variable does. -/
theorem walkNode_realizes
    (hexpand : ∀ name, Realizes total (expand name) fun opened =>
      NodeYields (s.surroundings total) level opened (.variable name)) :
    ∀ node, Realizes total (walkNode s expand node) fun opened =>
      NodeYields (s.surroundings total) level opened node
  | .literal text => by
    refine (realizes_text text).mono ?_
    rintro opened r rfl
    exact .literal text
  | .variable name => hexpand name
  | .conditional _ thenBranch none =>
    chooseBranch_realizes (walkNodes_realizes hexpand thenBranch) (walkNodes_realizes hexpand [])
  | .conditional _ thenBranch (some elseBranch) =>
    chooseBranch_realizes (walkNodes_realizes hexpand thenBranch)
      (walkNodes_realizes hexpand elseBranch)
  | .optionGroup _ options => chooseOption_realizes (walkOptions_realizes hexpand options)

theorem walkNodes_realizes
    (hexpand : ∀ name, Realizes total (expand name) fun opened =>
      NodeYields (s.surroundings total) level opened (.variable name)) :
    ∀ nodes, Realizes total (walkNodes s expand nodes) fun opened =>
      Yields (s.surroundings total) level opened nodes
  | [] => by
    have hskip : Realizes total .skip fun _ r => r = .report [] :=
      realizes_emit rfl rfl (fun p hp => nomatch hp) rfl
    refine hskip.mono ?_
    rintro opened r rfl
    exact .nil
  | node :: nodes => by
    refine ((walkNode_realizes hexpand node).andThen (walkNodes_realizes hexpand nodes)).mono ?_
    rintro opened r ⟨r₁, r₂, hr₁, hr₂, rfl⟩
    exact .cons hr₁ hr₂

theorem walkOptions_realizes
    (hexpand : ∀ name, Realizes total (expand name) fun opened =>
      NodeYields (s.surroundings total) level opened (.variable name)) :
    ∀ options : List (Choice Node), ∀ option ∈ options,
      Realizes total (walkNodes s expand option.body) fun opened =>
        Yields (s.surroundings total) level opened option.body
  | [], _, hmem => nomatch hmem
  | ⟨_, _, body⟩ :: options, option, hmem => by
    rcases List.mem_cons.1 hmem with rfl | hmem
    · exact walkNodes_realizes hexpand body
    · exact walkOptions_realizes hexpand options option hmem

end

end

/-! ## 4. Variables -/

section

variable {s : Setting} {total level : Nat} {name text : String} {step : Step}
  {results : Nat → Result → Prop}

theorem leaveClosed_realizes :
    Realizes total (leaveClosed s name text) fun _ r =>
      r = ⟨text, [.maxRecursionExceeded name s.maxLevel], 0⟩ := by
  intro tally opened _
  refine ⟨_, rfl, ?_⟩
  by_cases hname : name ∈ tally.reported
  · constructor <;> simp [leaveClosed, hname, reportOnce, reportedAfter, Problem.runaway?,
      Trace.text_cons, Trace.written?, Trace.problems_cons, Trace.problem?]
  · constructor <;> simp [leaveClosed, hname, reportOnce, reportedAfter, Problem.runaway?,
      Trace.text_cons, Trace.written?, Trace.problems_cons, Trace.problem?]

/-- A value that is opened is taken off the budget first. -/
theorem Realizes.spend (h : Realizes total step results) {tally : Tally} {opened : Nat}
    (hbudget : opened + tally.budget = total) (hne : tally.budget ≠ 0) :
    ∃ r, results (opened + 1) r ∧
      ((Step.update fun tally => { tally with budget := tally.budget - 1 }).andThen step).Leaves
        tally (⟨"", [], 1⟩ ++ r) := by
  have hspent : opened + 1 + (tally.budget - 1) = total := by omega
  obtain ⟨r, hr, hleaves⟩ := h { tally with budget := tally.budget - 1 } (opened + 1) hspent
  refine ⟨r, hr, ?_, ?_, ?_, ?_⟩
  · simp [hleaves.text]
  · simp [hleaves.problems]
  · simp [hleaves.reported]
  · have hleft := hleaves.budget
    simp only [Step.after_andThen, Step.after_update, Result.opened_append]
    dsimp only at hleft ⊢
    omega

theorem openValue_realizes {walk : List Node → Step} (hlevel : level + 1 ≤ s.maxLevel)
    (hwalk : ∀ nodes, Realizes total (walk nodes) fun opened =>
      Yields (s.surroundings total) (level + 1) opened nodes)
    (hmark : hasMark text = true) :
    Realizes total (openValue s (level + 1) walk name text) fun opened =>
      ValueYields (s.surroundings total) level opened name text := by
  intro tally opened hbudget
  by_cases hzero : tally.budget = 0
  · -- the budget is used up, so as many values were opened as may be
    obtain ⟨r, rfl, hleaves⟩ := @leaveClosed_realizes s total name text tally opened hbudget
    refine ⟨_, .closed hmark fun hopen => ?_, Step.leaves_ask ?_⟩
    · have hlt : opened < total := hopen.2
      omega
    · rw [if_pos hzero]
      exact hleaves
  · have hopen : (s.surroundings total).mayOpen (level + 1) opened := ⟨hlevel, by omega⟩
    cases hread : Template.read text with
    | ok template =>
      have hopened : Realizes total ((Step.emit [.opened name (level + 1)]).andThen
          (walk template.nodes)) fun opened =>
            Yields (s.surroundings total) (level + 1) opened template.nodes :=
        (hwalk template.nodes).after_emit rfl rfl
      obtain ⟨r, hr, hleaves⟩ := hopened.spend hbudget hzero
      refine ⟨_, .opened hmark hopen hread hr, Step.leaves_ask ?_⟩
      rw [if_neg hzero]
      dsimp only
      rw [hread]
      exact hleaves
    | error fault =>
      have hopened : Realizes total ((Step.emit [.opened name (level + 1)]).andThen
          (.emit [.problem (.invalidValueTemplate name fault), .text text])) fun _ r =>
            r = ⟨text, [.invalidValueTemplate name fault], 0⟩ :=
        (realizes_problem_text rfl text).after_emit rfl rfl
      obtain ⟨r, rfl, hleaves⟩ := hopened.spend hbudget hzero
      have hresult : (⟨"", [], 1⟩ ++ ⟨text, [.invalidValueTemplate name fault], 0⟩ : Result)
          = ⟨text, [.invalidValueTemplate name fault], 1⟩ := by
        show Result.mk _ _ _ = _
        simp
      rw [hresult] at hleaves
      refine ⟨_, .invalid hmark hopen hread, Step.leaves_ask ?_⟩
      rw [if_neg hzero]
      dsimp only
      rw [hread]
      exact hleaves

theorem reference_realizes {nested : (name text : String) → Step}
    (hnested : ∀ text, hasMark text = true → Realizes total (nested name text) fun opened =>
      ValueYields (s.surroundings total) level opened name text) :
    Realizes total (reference s nested name) fun opened =>
      NodeYields (s.surroundings total) level opened (.variable name) := by
  refine realizes_useSlot fun key => ?_
  dsimp only
  cases hget : s.catalog.get? name with
  | none =>
    rw [eligible_unknown hget]
    refine (realizes_problem_text rfl (placeholder name)).mono ?_
    rintro opened r rfl
    exact .unknown hget
  | some e =>
    rw [malformed_eligible hget]
    have hreport : Realizes total (.report ((s.surroundings total).unreadable e)) fun _ r =>
        r = .report ((s.surroundings total).unreadable e) :=
      realizes_report (tame_unreadable _ _)
    rcases pick_eligible hget (key.material s.material) with
      ⟨hnone, hpick⟩ | ⟨value, hmem, hadmits, hpick⟩
    · rw [hpick]
      refine (hreport.andThen (realizes_problem_text rfl (placeholder name))).mono ?_
      rintro opened r ⟨r₁, r₂, rfl, rfl, rfl⟩
      exact .noValue hget hnone
    · rw [hpick]
      have hvalue : Realizes total
          (if hasMark value.text then nested name value.text else .emit [.text value.text])
          fun opened => ValueYields (s.surroundings total) level opened name value.text := by
        split
        · next hmark => exact hnested value.text hmark
        · next hmark =>
          refine (realizes_text value.text).mono ?_
          rintro opened r rfl
          exact .plain (by simpa using hmark)
      have hdraw := @Realizes.after_emit _ _ _ [.draw key] hvalue rfl rfl
      refine (hreport.andThen hdraw).mono ?_
      rintro opened r ⟨r₁, r₂, rfl, hr₂, rfl⟩
      exact .value hget hmem hadmits hr₂

/-- The walk of a variable comes to one of the variable's results, on every level. -/
theorem expandVariable_realizes (levels : Nat) (hlevel : level + levels = s.maxLevel) :
    Realizes total (expandVariable s levels name) fun opened =>
      NodeYields (s.surroundings total) level opened (.variable name) := by
  induction levels generalizing level name with
  | zero =>
    refine reference_realizes fun text hmark => ?_
    refine leaveClosed_realizes.mono ?_
    rintro opened r rfl
    -- no level is left, so the next one is too deep
    refine .closed hmark fun hopen => ?_
    have hle : level + 1 ≤ s.maxLevel := hopen.1
    omega
  | succ levels ih =>
    refine reference_realizes fun text hmark => ?_
    have hopens : s.maxLevel - levels = level + 1 := by omega
    rw [hopens]
    refine openValue_realizes (by omega) (fun nodes => ?_) hmark
    exact walkNodes_realizes (fun name => ih (by omega)) nodes

end

/-! ## 5. Variations -/

/-- The surroundings of a variation under limits. -/
def Request.surroundings (r : Request) (limits : Limits) : Surroundings where
  catalog := r.catalog
  context := r.context
  mayOpen level opened := level ≤ limits.maxRecursionDepth ∧ opened < limits.maxExpansions
  limit := limits.maxRecursionDepth

/-- The text and the problems of a variation are those of a result, with each variable reported once
as running away. -/
theorem exists_yields (r : Request) (limits : Limits) (seed : String) (index : Nat) :
    ∃ result, Yields (r.surroundings limits) 0 0 r.template.nodes result ∧
      (r.variation limits seed index).text = result.text ∧
        (r.variation limits seed index).problems = reportOnce [] result.problems := by
  let s : Setting :=
    ⟨r.catalog, r.context, limits.maxRecursionDepth, Draw.variationSeed seed index⟩
  have hwalk : Realizes limits.maxExpansions (walkNodes s (expandVariable s s.maxLevel)
      r.template.nodes) fun opened => Yields (r.surroundings limits) 0 opened r.template.nodes :=
    walkNodes_realizes (fun name => expandVariable_realizes s.maxLevel (Nat.zero_add _))
      r.template.nodes
  obtain ⟨result, hyields, hleaves⟩ := hwalk (.start limits.maxExpansions) 0 (Nat.zero_add _)
  exact ⟨result, hyields, hleaves.text, hleaves.problems⟩

/-- Where no variable was reported as running away, the text and the problems are also those of a
result for which every value may be opened. -/
theorem runaway_or_exists_yields (r : Request) (limits : Limits) (seed : String) (index : Nat) :
    (∃ p ∈ (r.variation limits seed index).problems, p.runaway? ≠ none) ∨
      ∃ opened, Yields (r.surroundings limits).free 0 0 r.template.nodes
        ⟨(r.variation limits seed index).text, (r.variation limits seed index).problems,
          opened⟩ := by
  obtain ⟨result, hyields, htext, hproblems⟩ := exists_yields r limits seed index
  by_cases htame : Tame (r.variation limits seed index).problems
  · -- nothing was left out of the problems, since the first report of a variable is kept
    right
    have hresult : Tame result.problems := by
      intro p hp
      rw [hproblems] at htame
      cases hname : p.runaway? with
      | none => rfl
      | some name => exact absurd (tame_of_tame_reportOnce htame p hp name hname) List.not_mem_nil
    rw [(reportOnce_of_tame hresult []).1] at hproblems
    refine ⟨result.opened, ?_⟩
    rw [htext, hproblems]
    exact hyields.free hresult
  · left
    unfold Tame at htame
    simpa using htame

/-- A variation is one of the results that its template may have: with each variable reported once
as running away, and where none was reported, also if every value may be opened. -/
theorem variation_refines (r : Request) (limits : Limits) (seed : String) (index : Nat) :
    (∃ result, Yields (r.surroundings limits) 0 0 r.template.nodes result ∧
      (r.variation limits seed index).text = result.text ∧
        (r.variation limits seed index).problems = reportOnce [] result.problems) ∧
    ((∃ p ∈ (r.variation limits seed index).problems, p.runaway? ≠ none) ∨
      ∃ opened, Yields (r.surroundings limits).free 0 0 r.template.nodes
        ⟨(r.variation limits seed index).text, (r.variation limits seed index).problems,
          opened⟩) :=
  ⟨exists_yields r limits seed index, runaway_or_exists_yields r limits seed index⟩

end SeededText
