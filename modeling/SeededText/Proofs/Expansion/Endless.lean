import SeededText.Proofs.Catalog.History
import SeededText.Proofs.Expansion.Runaways
import SeededText.Proofs.Lint
import SeededText.Proofs.Template.Flat
import SeededText.Proofs.Template.Names

/-!
# Variables that never come to an end

If nothing limits it, the expansion of a reference either comes to an end for some draws or for none.
In the second case it runs away under every limit (`reports_of_not_ends`); in the first case there
are limits and draws under which it does not (`ends_iff`).

Checking a catalog reports a variable all of whose values refer to the variable itself.  That a value
refers to it is not enough for its expansion to go on for ever: the reference may stand in a branch
that is not taken, or in one option of several.  `Meets` says what is enough, by the structure of the
nodes: whatever the draws are, a walk of them comes to a reference to the variable.
-/

namespace SeededText

/-! ## 1. Results without limits -/

/-- The surroundings of a catalog and a context where everything may be opened. -/
def Catalog.unlimited (c : Catalog) (context : Context) : Surroundings where
  catalog := c
  context := context
  mayOpen _ _ := True
  limit := 0

/-- If nothing limits it, the expansion comes to an end for some draws. -/
def Request.Ends (r : Request) : Prop :=
  ∃ result, Yields (r.catalog.unlimited r.context) 0 0 r.template.nodes result

mutual

/-- Where everything may be opened nothing runs away. -/
theorem NodeYields.tame {m : Surroundings} (hopen : ∀ l o, m.mayOpen l o) {level opened : Nat}
    {node : Node} {r : Result} : NodeYields m level opened node r → Tame r.problems
  | .literal _ => fun _ hp => nomatch hp
  | .thenBranch _ h => h.tame hopen
  | .elseBranch _ h => h.tame hopen
  | .malformed _ h => tame_append.2 ⟨tame_singleton rfl, h.tame hopen⟩
  | .option _ _ h => tame_append.2 ⟨tame_unreadable _ _, h.tame hopen⟩
  | .noOption _ => tame_append.2 ⟨tame_unreadable _ _, tame_singleton rfl⟩
  | .unknown _ => tame_singleton rfl
  | .noValue _ _ => tame_append.2 ⟨tame_unreadable _ _, tame_singleton rfl⟩
  | .value _ _ _ h => tame_append.2 ⟨tame_unreadable _ _, h.tame hopen⟩

theorem ValueYields.tame {m : Surroundings} (hopen : ∀ l o, m.mayOpen l o) {level opened : Nat}
    {name text : String} {r : Result} : ValueYields m level opened name text r → Tame r.problems
  | .plain _ => fun _ hp => nomatch hp
  | .opened _ _ _ h => h.tame hopen
  | .invalid _ _ _ => tame_singleton rfl
  | .closed _ hclosed => absurd (hopen _ _) hclosed

theorem Yields.tame {m : Surroundings} (hopen : ∀ l o, m.mayOpen l o) {level opened : Nat}
    {nodes : List Node} {r : Result} : Yields m level opened nodes r → Tame r.problems
  | .nil => fun _ hp => nomatch hp
  | .cons hnode h => tame_append.2 ⟨hnode.tame hopen, h.tame hopen⟩

end

section

variable {r : Request} {limits : Limits} {seed : String} {index : Nat}

/-- A result under limits in which nothing runs away is one without limits. -/
theorem ends_of_tame {result : Result}
    (h : Yields (r.surroundings limits) 0 0 r.template.nodes result) (htame : Tame result.problems) :
    r.Ends := by
  obtain ⟨depth, hroom⟩ := h.exists_room htame
  exact ⟨result, hroom (fun _ _ => True) 0 0 0 fun _ _ _ _ => trivial⟩

/-- The expansion comes to an end for some draws if and only if nothing runs away in it under some
limits and for some draws. -/
theorem ends_iff : r.Ends ↔ ∃ limits result,
    Yields (r.surroundings limits) 0 0 r.template.nodes result ∧ Tame result.problems := by
  constructor
  · rintro ⟨result, h⟩
    have htame := h.tame fun _ _ => trivial
    obtain ⟨depth, hroom⟩ := h.exists_room htame
    refine ⟨⟨depth, 1, result.opened⟩, result, hroom _ depth 0 0 fun l o hl ho => ?_, htame⟩
    rw [Nat.zero_add] at hl ho
    exact ⟨hl, ho⟩
  · rintro ⟨limits, result, h, htame⟩
    exact ends_of_tame h htame

/-- What comes to an end for no draws is cut off in every variation. -/
theorem reports_of_not_ends (h : ¬ r.Ends) :
    ∃ name, .maxRecursionExceeded name limits.maxRecursionDepth
      ∈ (r.variation limits seed index).problems := by
  rcases runaway_or_exists_yields r limits seed index with ⟨p, hp, hrunaway⟩ | ⟨opened, hfree⟩
  · cases p with
    | maxRecursionExceeded name limit =>
      obtain ⟨hruns, -⟩ := mem_problems_iff_runsAway.1 hp
      exact ⟨name, mem_problems_iff_runsAway.2 ⟨hruns, rfl⟩⟩
    | malformedCondition | unknownVariable | noEligibleValue | noEligibleOption
      | invalidValueTemplate => exact absurd rfl hrunaway
  · obtain ⟨depth, hroom⟩ := hfree.exists_room (hfree.tame fun _ _ => trivial)
    exact absurd ⟨_, hroom (fun _ _ => True) 0 0 0 fun _ _ _ _ => trivial⟩ h

end

/-! ## 2. References that are always met -/

mutual

/-- In the context a walk of the node comes to a reference to the variable, whatever the draws are. -/
inductive NodeMeets (context : Context) (v : String) : Node → Prop where
  | reference : NodeMeets context v (.variable v)
  | thenBranch {condition : String} {thenBranch : List Node} {elseBranch : Option (List Node)} :
      decideCondition condition context = .ok true → Meets context v thenBranch →
        NodeMeets context v (.conditional condition thenBranch elseBranch)
  | elseBranch {condition : String} {thenBranch : List Node} {elseBranch : Option (List Node)} :
      decideCondition condition context ≠ .ok true → Meets context v (elseBranch.getD []) →
        NodeMeets context v (.conditional condition thenBranch elseBranch)
  /-- every option that may be chosen comes to one, and one may be -/
  | options {index : Nat} {options : List (Choice Node)} :
      (∃ option ∈ options, Admits context option.condition) →
        (∀ option ∈ options, Admits context option.condition → Meets context v option.body) →
          NodeMeets context v (.optionGroup index options)

/-- A walk of the nodes comes to a reference to the variable. -/
inductive Meets (context : Context) (v : String) : List Node → Prop where
  | here {node : Node} {nodes : List Node} : NodeMeets context v node →
      Meets context v (node :: nodes)
  | later {node : Node} {nodes : List Node} : Meets context v nodes →
      Meets context v (node :: nodes)

end

/-- The variable has a value, and every value that may be picked for it is a template whose walk comes
to the variable again. -/
structure Catalog.Returns (c : Catalog) (context : Context) (v : String) : Prop where
  offered : ∃ text, c.Offers context v text
  marked : ∀ text, c.Offers context v text → hasMark text = true
  read : ∀ text, c.Offers context v text → ∃ template, Template.read text = .ok template
  meets : ∀ text template, c.Offers context v text → Template.read text = .ok template →
    Meets context v template.nodes

theorem NodeMeets.eq {context : Context} {v name : String}
    (h : NodeMeets context v (.variable name)) : name = v := by
  cases h
  rfl

mutual

/-- A variable that returns is left closed in the end, in every result of nodes that come to it. -/
theorem NodeYields.runsAway {m : Surroundings} {v : String}
    (hreturns : m.catalog.Returns m.context v) {level opened : Nat} {node : Node} {r : Result} :
    NodeYields m level opened node r → NodeMeets m.context v node →
      .maxRecursionExceeded v m.limit ∈ r.problems
  | .literal _, hmeets => by cases hmeets
  | .thenBranch hc h, hmeets => by
    cases hmeets with
    | thenBranch _ hmeets => exact h.runsAway hreturns hmeets
    | elseBranch hc' => exact absurd hc hc'
  | .elseBranch hc h, hmeets => by
    cases hmeets with
    | thenBranch hc' => rw [hc] at hc'; cases hc'
    | elseBranch _ hmeets => exact h.runsAway hreturns hmeets
  | .malformed hc h, hmeets => by
    cases hmeets with
    | thenBranch hc' => rw [hc] at hc'; cases hc'
    | elseBranch _ hmeets => exact List.mem_append_right _ (h.runsAway hreturns hmeets)
  | .option hmem hadmits h, hmeets => by
    cases hmeets with
    | options _ hbody =>
      exact List.mem_append_right _ (h.runsAway hreturns (hbody _ hmem hadmits))
  | .noOption hnone, hmeets => by
    cases hmeets with
    | options hsome _ =>
      obtain ⟨option, hmem, hadmits⟩ := hsome
      exact absurd hadmits (hnone option hmem)
  | .unknown hget, hmeets => by
    obtain ⟨-, e, value, hget', -⟩ := hreturns.offered
    rw [hmeets.eq, hget'] at hget
    cases hget
  | .noValue hget hnone, hmeets => by
    obtain ⟨-, e, value, hget', hmem, hadmits, -⟩ := hreturns.offered
    rw [hmeets.eq, hget'] at hget
    cases hget
    exact absurd hadmits (hnone value hmem)
  | .value hget hmem hadmits h, hmeets =>
    List.mem_append_right _
      (h.runsAway hreturns hmeets.eq ⟨_, _, hmeets.eq ▸ hget, hmem, hadmits, rfl⟩)

theorem ValueYields.runsAway {m : Surroundings} {v : String}
    (hreturns : m.catalog.Returns m.context v) {level opened : Nat} {name text : String}
    {r : Result} : ValueYields m level opened name text r → name = v →
      m.catalog.Offers m.context v text → .maxRecursionExceeded v m.limit ∈ r.problems
  | .plain hmark, _, hoffers => by
    rw [hreturns.marked text hoffers] at hmark
    cases hmark
  | .opened _ _ hread h, _, hoffers => h.runsAway hreturns (hreturns.meets text _ hoffers hread)
  | .invalid _ _ hfault, _, hoffers => by
    obtain ⟨template, hread⟩ := hreturns.read text hoffers
    rw [hread] at hfault
    cases hfault
  | .closed _ _, hname, _ => by
    rw [hname]
    exact List.mem_cons_self

theorem Yields.runsAway {m : Surroundings} {v : String}
    (hreturns : m.catalog.Returns m.context v) {level opened : Nat} {nodes : List Node} {r : Result} :
    Yields m level opened nodes r → Meets m.context v nodes →
      .maxRecursionExceeded v m.limit ∈ r.problems
  | .nil, hmeets => by cases hmeets
  | .cons hnode h, hmeets => by
    cases hmeets with
    | here hmeets => exact List.mem_append_left _ (hnode.runsAway hreturns hmeets)
    | later hmeets => exact List.mem_append_right _ (h.runsAway hreturns hmeets)

end

/-! ### References that are not always met -/

/-- On every level and whatever was opened before, the nodes have a result. -/
def Surroundings.Finishes (m : Surroundings) (nodes : List Node) : Prop :=
  ∀ level opened, ∃ result, Yields m level opened nodes result

section

variable {m : Surroundings} {c : Catalog} {context : Context} {v condition : String} {index : Nat}
  {node : Node} {nodes thenBranch : List Node} {elseBranch : Option (List Node)}
  {options : List (Choice Node)}

theorem finishes_singleton (h : ∀ level opened, ∃ result, NodeYields m level opened node result) :
    m.Finishes [node] := by
  intro level opened
  obtain ⟨result, hresult⟩ := h level opened
  exact ⟨_, .cons hresult .nil⟩

theorem finishes_nil : m.Finishes [] :=
  fun _ _ => ⟨_, .nil⟩

theorem Surroundings.Finishes.cons (h : m.Finishes [node]) (h' : m.Finishes nodes) :
    m.Finishes (node :: nodes) := by
  intro level opened
  obtain ⟨result, hresult⟩ := h level opened
  cases hresult with
  | cons hnode _ =>
    obtain ⟨later, hlater⟩ := h' level _
    exact ⟨_, .cons hnode hlater⟩

/-- Without limits the level and what was opened before do not matter. -/
theorem ends_iff_finishes {r : Request} :
    r.Ends ↔ (r.catalog.unlimited r.context).Finishes r.template.nodes := by
  constructor
  · rintro ⟨result, h⟩ level opened
    obtain ⟨depth, hroom⟩ := h.exists_room (h.tame fun _ _ => trivial)
    exact ⟨result, hroom (fun _ _ => True) 0 level opened fun _ _ _ _ => trivial⟩
  · exact fun h => h 0 0

theorem meets_or_finishes_conditional
    (hthen : Meets m.context v thenBranch ∨ m.Finishes thenBranch)
    (helse : Meets m.context v (elseBranch.getD []) ∨ m.Finishes (elseBranch.getD [])) :
    Meets m.context v [.conditional condition thenBranch elseBranch] ∨
      m.Finishes [.conditional condition thenBranch elseBranch] := by
  cases hdecide : decideCondition condition m.context with
  | ok holds =>
    cases holds with
    | true =>
      rcases hthen with hmeets | hfinishes
      · exact .inl (.here (.thenBranch hdecide hmeets))
      · refine .inr (finishes_singleton fun level opened => ?_)
        obtain ⟨result, hresult⟩ := hfinishes level opened
        exact ⟨_, .thenBranch hdecide hresult⟩
    | false =>
      rcases helse with hmeets | hfinishes
      · exact .inl (.here (.elseBranch (by simp [hdecide]) hmeets))
      · refine .inr (finishes_singleton fun level opened => ?_)
        obtain ⟨result, hresult⟩ := hfinishes level opened
        exact ⟨_, .elseBranch hdecide hresult⟩
  | error e =>
    rcases helse with hmeets | hfinishes
    · exact .inl (.here (.elseBranch (by simp [hdecide]) hmeets))
    · refine .inr (finishes_singleton fun level opened => ?_)
      obtain ⟨result, hresult⟩ := hfinishes level opened
      exact ⟨_, .malformed hdecide hresult⟩

theorem meets_or_finishes_optionGroup
    (hbody : ∀ option ∈ options, Meets m.context v option.body ∨ m.Finishes option.body) :
    Meets m.context v [.optionGroup index options] ∨ m.Finishes [.optionGroup index options] := by
  by_cases hsome : ∃ option ∈ options, Admits m.context option.condition
  · by_cases hall : ∀ option ∈ options, Admits m.context option.condition →
        Meets m.context v option.body
    · exact .inl (.here (.options hsome hall))
    · -- the option that does not come to the variable may be chosen
      push Not at hall
      obtain ⟨option, hmem, hadmits, hnot⟩ := hall
      refine .inr (finishes_singleton fun level opened => ?_)
      obtain ⟨result, hresult⟩ := (hbody option hmem).resolve_left hnot level opened
      exact ⟨_, .option hmem hadmits hresult⟩
  · push Not at hsome
    exact .inr (finishes_singleton fun level opened => ⟨_, .noOption hsome⟩)

theorem references_subset {before after : List Node}
    (h : (Node.visitsList before).Sublist (Node.visitsList after)) :
    references before ⊆ references after :=
  (h.filterMap Node.name?).subset

end

mutual

/-- Where all other variables that nodes refer to finish, the nodes come to a reference to the
variable whatever the draws are, or they finish. -/
theorem meets_or_finishes_node {m : Surroundings} {v : String} :
    ∀ node, (∀ name ∈ references [node], name ≠ v → m.Finishes [.variable name]) →
      Meets m.context v [node] ∨ m.Finishes [node]
  | .literal text, _ => .inr (finishes_singleton fun _ _ => ⟨_, .literal text⟩)
  | .variable name, hothers => by
    by_cases hname : name = v
    · rw [hname]
      exact .inl (.here .reference)
    · exact .inr (hothers name List.mem_cons_self hname)
  | .conditional _ thenBranch none, hothers =>
    meets_or_finishes_conditional
      (meets_or_finishes thenBranch fun name hmem =>
        hothers name (references_subset thenBranch_sublist hmem))
      (.inr finishes_nil)
  | .conditional condition thenBranch (some elseBranch), hothers =>
    meets_or_finishes_conditional
      (meets_or_finishes thenBranch fun name hmem =>
        hothers name (references_subset thenBranch_sublist hmem))
      (meets_or_finishes elseBranch fun name hmem =>
        hothers name (references_subset
          (@elseBranch_sublist condition thenBranch (some elseBranch)) hmem))
  | .optionGroup _ options, hothers =>
    meets_or_finishes_optionGroup
      (meets_or_finishes_options options fun option hoption name hmem =>
        hothers name (references_subset (body_sublist hoption) hmem))

theorem meets_or_finishes {m : Surroundings} {v : String} :
    ∀ nodes, (∀ name ∈ references nodes, name ≠ v → m.Finishes [.variable name]) →
      Meets m.context v nodes ∨ m.Finishes nodes
  | [], _ => .inr finishes_nil
  | node :: nodes, hothers => by
    rw [← List.singleton_append, references_append] at hothers
    rcases meets_or_finishes_node node fun name hmem =>
        hothers name (List.mem_append_left _ hmem) with hmeets | hfinishes
    · cases hmeets with
      | here hnode => exact .inl (.here hnode)
      | later hnil => cases hnil
    · rcases meets_or_finishes nodes fun name hmem =>
          hothers name (List.mem_append_right _ hmem) with hmeets | hlater
      · exact .inl (.later hmeets)
      · exact .inr (hfinishes.cons hlater)

theorem meets_or_finishes_options {m : Surroundings} {v : String} :
    ∀ options : List (Choice Node),
      (∀ option ∈ options, ∀ name ∈ references option.body, name ≠ v → m.Finishes [.variable name]) →
        ∀ option ∈ options, Meets m.context v option.body ∨ m.Finishes option.body
  | [], _, _, hmem => nomatch hmem
  | ⟨_, _, body⟩ :: options, hothers, option, hmem => by
    rcases List.mem_cons.1 hmem with rfl | hmem
    · exact meets_or_finishes body (hothers _ List.mem_cons_self)
    · exact meets_or_finishes_options options
        (fun option hoption => hothers option (List.mem_cons_of_mem _ hoption)) option hmem

end

/-! ## 3. Single references -/

/-- The request whose template is one reference. -/
def Catalog.reference (c : Catalog) (context : Context) (name : String) : Request :=
  ⟨⟨[.variable name]⟩, c, context⟩

section

variable {c : Catalog} {context : Context} {v : String}

/-- A variable that returns is reported in every variation of a reference to it. -/
theorem Catalog.Returns.reported (h : c.Returns context v) (limits : Limits) (seed : String)
    (index : Nat) :
    runawaysOf v ((c.reference context v).variation limits seed index).problems
      = [.maxRecursionExceeded v limits.maxRecursionDepth] := by
  obtain ⟨result, hyields, -, hproblems⟩ := exists_yields (c.reference context v) limits seed index
  have hmem := Yields.runsAway h hyields (.here .reference)
  obtain ⟨q, hq, hname⟩ := exists_mem_reportOnce hmem rfl List.not_mem_nil
  rw [← hproblems] at hq
  have hreported : ∃ limit, .maxRecursionExceeded v limit
      ∈ ((c.reference context v).variation limits seed index).problems := by
    cases q with
    | maxRecursionExceeded name limit =>
      cases hname
      exact ⟨limit, hq⟩
    | malformedCondition | unknownVariable | noEligibleValue | noEligibleOption
      | invalidValueTemplate => cases hname
  rw [runawaysOf_variation, if_pos (runsAway_iff_closed.1 (reported_iff_runsAway.1 hreported))]

theorem Catalog.Returns.not_ends (h : c.Returns context v) : ¬ (c.reference context v).Ends := by
  rintro ⟨result, hresult⟩
  have htame := hresult.tame fun _ _ => trivial
  have hmem := Yields.runsAway h hresult (.here .reference)
  cases htame _ hmem

end

/-! ## 4. Variables that are found to be recursive -/

section

variable {c : Catalog} {place : Place} {v : String}

theorem refersTo_eq_true_iff {value : Candidate} :
    value.refersTo v = true ↔ hasMark value.text = true ∧ ∃ template,
      Template.read value.text = .ok template ∧ v ∈ references template.nodes := by
  unfold Candidate.refersTo
  cases Template.read value.text with
  | ok template => simp [mem_variableNames]
  | error e => simp

theorem onlyRecursive_not_mem_checkCondition {option : Option String} {source : String} :
    .onlyRecursive v ∉ checkCondition place option source := by
  unfold checkCondition
  split <;> simp

mutual

/-- Checking nodes finds nothing about a variable's values. -/
theorem onlyRecursive_not_mem_checkNode {c : Catalog} {place : Place} {v : String} :
    ∀ node, .onlyRecursive v ∉ checkNode c place node
  | .literal _ => by simp [checkNode]
  | .variable name => by
    rw [checkNode]
    split <;> simp
  | .conditional _ thenBranch none => by
    simp [checkNode, onlyRecursive_not_mem_checkCondition,
      onlyRecursive_not_mem_checkNodes thenBranch]
  | .conditional _ thenBranch (some elseBranch) => by
    simp [checkNode, onlyRecursive_not_mem_checkCondition,
      onlyRecursive_not_mem_checkNodes thenBranch, onlyRecursive_not_mem_checkNodes elseBranch]
  | .optionGroup _ options => by
    rw [checkNode]
    exact onlyRecursive_not_mem_checkOptions options

theorem onlyRecursive_not_mem_checkNodes {c : Catalog} {place : Place} {v : String} :
    ∀ nodes, .onlyRecursive v ∉ checkNodes c place nodes
  | [] => by simp [checkNodes]
  | node :: nodes => by
    simp [checkNodes, onlyRecursive_not_mem_checkNode node, onlyRecursive_not_mem_checkNodes nodes]

theorem onlyRecursive_not_mem_checkOptions {c : Catalog} {place : Place} {v : String} :
    ∀ options, .onlyRecursive v ∉ checkOptions c place options
  | [] => by simp [checkOptions]
  | ⟨_, none, body⟩ :: options => by
    simp [checkOptions, onlyRecursive_not_mem_checkNodes body,
      onlyRecursive_not_mem_checkOptions options]
  | ⟨_, some _, body⟩ :: options => by
    simp [checkOptions, onlyRecursive_not_mem_checkCondition, onlyRecursive_not_mem_checkNodes body,
      onlyRecursive_not_mem_checkOptions options]

end

theorem onlyRecursive_not_mem_checkValue {name : String} {index : Nat} {value : Candidate} :
    .onlyRecursive v ∉ checkValue c name index value := by
  obtain ⟨text, weight, condition⟩ := value
  unfold checkValue
  dsimp only
  cases condition with
  | none =>
    dsimp only
    split
    · split
      · exact onlyRecursive_not_mem_checkNodes _
      · simp
    · exact List.not_mem_nil
  | some source =>
    dsimp only
    split
    · split
      · exact fun hmem => (List.mem_append.1 hmem).elim onlyRecursive_not_mem_checkCondition
          (onlyRecursive_not_mem_checkNodes _)
      · exact fun hmem => (List.mem_append.1 hmem).elim onlyRecursive_not_mem_checkCondition (by simp)
    · exact onlyRecursive_not_mem_checkCondition

theorem onlyRecursive_mem_checkEntry_iff {e : Entry} : .onlyRecursive v ∈ checkEntry c e ↔
    e.name = v ∧ e.values ≠ [] ∧ ∀ value ∈ e.values, value.refersTo v = true := by
  unfold checkEntry
  simp only [List.mem_append]
  constructor
  · rintro (((hfew | hconditional) | hvalues) | hrepetition)
    · split at hfew <;> simp at hfew
    · split at hconditional <;> simp at hconditional
    · obtain ⟨⟨value, index⟩, -, hmem⟩ := List.mem_flatMap.1 hvalues
      exact absurd hmem onlyRecursive_not_mem_checkValue
    · split at hrepetition
      · cases hrepetition
      · next hsome =>
        split at hrepetition
        · next hall =>
          obtain rfl : v = e.name := by simpa using hrepetition
          refine ⟨rfl, ?_, List.length_filter_eq_length_iff.1 hall⟩
          intro hnil
          exact hsome (by rw [hnil]; rfl)
        · simp at hrepetition
  · rintro ⟨rfl, hne, hall⟩
    have hlength := List.length_filter_eq_length_iff.2 hall
    refine .inr ?_
    rw [hlength, if_neg (by simpa using hne), if_pos rfl]
    exact List.mem_cons_self

/-- A variable is found to have only recursive values if it has a value and all of them refer to it. -/
theorem onlyRecursive_mem_lint_iff {template : Template} :
    .onlyRecursive v ∈ (lint template c).findings ↔
      ∃ e, c.get? v = some e ∧ e.values ≠ [] ∧ ∀ value ∈ e.values, value.refersTo v = true := by
  constructor
  · intro h
    rcases List.mem_append.1 h with hnodes | hentries
    · exact absurd hnodes (onlyRecursive_not_mem_checkNodes _)
    · obtain ⟨e, he, hfound⟩ := List.mem_flatMap.1 hentries
      obtain ⟨rfl, hne, hall⟩ := onlyRecursive_mem_checkEntry_iff.1 hfound
      exact ⟨e, Catalog.mem_entries_iff.1 he, hne, hall⟩
  · rintro ⟨e, hget, hne, hall⟩
    have hfound : .onlyRecursive v ∈ checkEntry c e :=
      onlyRecursive_mem_checkEntry_iff.2 ⟨Catalog.name_of_get? hget, hne, hall⟩
    exact List.mem_append_right _
      (List.mem_flatMap.2 ⟨e, List.mem_of_find?_eq_some hget, hfound⟩)

/-- And so does every text that is offered for it. -/
theorem offered_of_onlyRecursive {template : Template} {context : Context} {text : String}
    (h : .onlyRecursive v ∈ (lint template c).findings) (hoffers : c.Offers context v text) :
    hasMark text = true ∧ ∃ inner, Template.read text = .ok inner ∧ v ∈ references inner.nodes := by
  obtain ⟨e, hget, -, hall⟩ := onlyRecursive_mem_lint_iff.1 h
  obtain ⟨e', value, hget', hmem, -, rfl⟩ := hoffers
  rw [hget] at hget'
  cases hget'
  exact refersTo_eq_true_iff.1 (hall value hmem)

/-- Outside of conditionals and option groups a reference is always met. -/
theorem meets_of_flat {context : Context} {nodes : List Node} (hrefers : v ∈ references nodes)
    (hflat : ∀ node ∈ nodes, node.isFlat = false → v ∉ references [node]) :
    Meets context v nodes := by
  induction nodes with
  | nil => cases hrefers
  | cons node nodes ih =>
    obtain ⟨hnode, hnodes⟩ := List.forall_mem_cons.1 hflat
    rw [references_cons, List.mem_append] at hrefers
    rcases hrefers with hfirst | hlater
    · cases hkind : node.isFlat with
      | false => exact absurd hfirst (hnode hkind)
      | true =>
        have hmem := (@mem_references_of_isFlat [node] v (by simp [hkind])).1 hfirst
        rw [← List.mem_singleton.1 hmem]
        exact .here .reference
    · exact .later (ih hlater hnodes)

/-- Where all other variables that its texts refer to come to an end, a variable without one returns. -/
theorem returns_of_not_ends {template : Template} {context : Context}
    (hfound : .onlyRecursive v ∈ (lint template c).findings)
    (heligible : ∃ text, c.Offers context v text)
    (hothers : ∀ text inner name, c.Offers context v text → Template.read text = .ok inner →
      name ∈ references inner.nodes → name ≠ v → (c.reference context name).Ends)
    (hends : ¬ (c.reference context v).Ends) : c.Returns context v where
  offered := heligible
  marked text hoffers := (offered_of_onlyRecursive hfound hoffers).1
  read text hoffers := by
    obtain ⟨-, inner, hread, -⟩ := offered_of_onlyRecursive hfound hoffers
    exact ⟨inner, hread⟩
  meets text inner hoffers hread := by
    refine Or.resolve_right (@meets_or_finishes (c.unlimited context) v inner.nodes fun name hmem hne =>
      ends_iff_finishes.1 (hothers text inner name hoffers hread hmem hne)) fun hfinishes => ?_
    -- otherwise this value would bring the variable to an end
    have hmark := (offered_of_onlyRecursive hfound hoffers).1
    obtain ⟨e, value, hget, hmem, hadmits, rfl⟩ := hoffers
    obtain ⟨result, hresult⟩ := hfinishes 1 1
    exact hends ⟨_, .cons (.value hget hmem hadmits (.opened hmark trivial hread hresult)) .nil⟩

end

/-- A variable that is found to have only recursive values, in a context in which it has a value.  If
its expansion comes to an end for no draws, and only then, every result of a reference to it under
limits reports something as running away, and so does every variation.  If every value that may be
picked comes to the variable again, each variation reports the variable itself.  This is so if its
references stand outside of conditionals and option groups; and where all other variables come to an
end, it is needed as well. -/
theorem onlyRecursive_runs_away {template : Template} {c : Catalog} {context : Context} {v : String}
    (hfound : .onlyRecursive v ∈ (lint template c).findings)
    (heligible : ∃ text, c.Offers context v text) :
    (¬ (c.reference context v).Ends ↔ ∀ limits result,
      Yields ((c.reference context v).surroundings limits) 0 0 [.variable v] result →
        ¬ Tame result.problems) ∧
    (¬ (c.reference context v).Ends → ∀ limits seed index,
      ∃ name, .maxRecursionExceeded name limits.maxRecursionDepth
        ∈ ((c.reference context v).variation limits seed index).problems) ∧
    (c.Returns context v → ∀ limits seed index,
      runawaysOf v ((c.reference context v).variation limits seed index).problems
        = [.maxRecursionExceeded v limits.maxRecursionDepth]) ∧
    ((∀ text inner, c.Offers context v text → Template.read text = .ok inner →
      ∀ node ∈ inner.nodes, node.isFlat = false → v ∉ references [node]) → c.Returns context v) ∧
    ((∀ text inner name, c.Offers context v text → Template.read text = .ok inner →
      name ∈ references inner.nodes → name ≠ v → (c.reference context name).Ends) →
        (¬ (c.reference context v).Ends ↔ c.Returns context v)) := by
  refine ⟨?_, fun hends limits seed index => reports_of_not_ends hends,
    Catalog.Returns.reported, fun hflat => ?_, fun hothers => ?_⟩
  · rw [ends_iff]
    push Not
    rfl
  · refine ⟨heligible, fun text hoffers => ?_, fun text hoffers => ?_,
      fun text inner hoffers hread => ?_⟩
    · exact (offered_of_onlyRecursive hfound hoffers).1
    · obtain ⟨-, inner, hread, -⟩ := offered_of_onlyRecursive hfound hoffers
      exact ⟨inner, hread⟩
    · obtain ⟨-, inner', hread', hrefers⟩ := offered_of_onlyRecursive hfound hoffers
      rw [hread] at hread'
      cases hread'
      exact meets_of_flat hrefers (hflat text inner hoffers hread)
  · exact ⟨returns_of_not_ends hfound heligible hothers, Catalog.Returns.not_ends⟩

/-- The first variable refers to itself in plain sight. -/
theorem onlyRecursive_runs_away_echoes :
    .onlyRecursive "echo" ∈ (lint echoes.template echoes.catalog).findings ∧
      (∃ text, echoes.catalog.Offers echoes.context "echo" text) ∧
      ∀ limits seed index,
        runawaysOf "echo"
            ((echoes.catalog.reference echoes.context "echo").variation limits seed index).problems
          = [.maxRecursionExceeded "echo" limits.maxRecursionDepth] := by
  have hread : Template.read "\x7b\x7becho\x7d\x7d" = .ok ⟨[.variable "echo"]⟩ := by decide +kernel
  have hrefers : Candidate.refersTo ⟨"\x7b\x7becho\x7d\x7d", 1, none⟩ "echo" = true :=
    refersTo_eq_true_iff.2 ⟨by decide, _, hread, List.mem_cons_self⟩
  have hfound : .onlyRecursive "echo" ∈ (lint echoes.template echoes.catalog).findings :=
    onlyRecursive_mem_lint_iff.2 ⟨_, rfl, List.cons_ne_nil _ _, List.forall_mem_singleton.2 hrefers⟩
  have hecho : ∀ text, echoes.catalog.Offers echoes.context "echo" text ↔
      text = Candidate.text ⟨"\x7b\x7becho\x7d\x7d", 1, none⟩ :=
    fun text => offers_of_single rfl rfl admits_none
  obtain ⟨-, -, hreported, hreturns, -⟩ := onlyRecursive_runs_away hfound ⟨_, (hecho _).2 rfl⟩
  refine ⟨hfound, ⟨_, (hecho _).2 rfl⟩, hreported (hreturns ?_)⟩
  intro text inner hoffers hinner node hmem hflat
  rw [(hecho text).1 hoffers, hread] at hinner
  cases hinner
  cases List.mem_singleton.1 hmem
  cases hflat

def taleText : String :=
  "\x7b\x7b#if deep == yes\x7d\x7d\x7b\x7btale\x7d\x7d\x7b\x7b/if\x7d\x7d"

/-- A variable that refers to itself under a condition only. -/
def tale : Request where
  template := ⟨[.variable "tale"]⟩
  catalog := Catalog.empty.insertValid ⟨"tale", none, [⟨taleText, 1, none⟩]⟩ (by decide)
  context := .empty

/-- It is found to have only recursive values, and where the condition is false nothing is reported. -/
theorem not_reported_tale :
    .onlyRecursive "tale" ∈ (lint tale.template tale.catalog).findings ∧
      (∃ text, tale.catalog.Offers tale.context "tale" text) ∧
      ¬ ∃ name limit, .maxRecursionExceeded name limit
        ∈ ((tale.catalog.reference tale.context "tale").variation ⟨1, 100, 1024⟩ "s" 0).problems := by
  have hmark : hasMark taleText = true := by decide
  have hread : Template.read taleText
      = .ok ⟨[.conditional "deep == yes" [.variable "tale"] none]⟩ := by decide +kernel
  have hrefers : Candidate.refersTo ⟨taleText, 1, none⟩ "tale" = true :=
    refersTo_eq_true_iff.2 ⟨hmark, _, hread, List.mem_cons_self⟩
  have hfound : .onlyRecursive "tale" ∈ (lint tale.template tale.catalog).findings :=
    onlyRecursive_mem_lint_iff.2 ⟨_, rfl, List.cons_ne_nil _ _, List.forall_mem_singleton.2 hrefers⟩
  have hoffers : ∀ text, tale.catalog.Offers tale.context "tale" text ↔
      text = Candidate.text ⟨taleText, 1, none⟩ :=
    fun text => offers_of_single rfl rfl admits_none
  have hpick := @Catalog.Offers.pickText (tale.setting ⟨1, 100, 1024⟩ "s" 0) _ _ ((hoffers _).2 rfl)
    fun other => (hoffers other).1
  have hcondition : Condition.read "deep == yes" = .ok ⟨"deep", .eq, .scalar "yes" false⟩ := by
    decide +kernel
  have hdecide : decideCondition "deep == yes" tale.context = .ok false := by
    rw [decideCondition, hcondition]
    rfl
  -- the value is opened, and its branch is not taken
  have hmoves : Moves (tale.setting ⟨1, 100, 1024⟩ "s" 0) (tale.start ⟨1, 100, 1024⟩) _ ⟨[], _⟩ :=
    .move (.value (hpick _) (.opened hmark (by decide) (by decide) hread))
      (.move (.elseBranch hdecide) (.refl _))
  have htrace := (trace_eq_iff_moves tale ⟨1, 100, 1024⟩ "s" 0 _).2 ⟨_, rfl, hmoves⟩
  have hproblems : (tale.variation ⟨1, 100, 1024⟩ "s" 0).problems = [] := by
    rw [Request.variation, htrace]
    rfl
  refine ⟨hfound, ⟨_, (hoffers _).2 rfl⟩, ?_⟩
  rintro ⟨name, limit, hmem⟩
  have hsame : tale.catalog.reference tale.context "tale" = tale := rfl
  rw [hsame, hproblems] at hmem
  cases hmem

end SeededText
