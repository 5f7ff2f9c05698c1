import Mathlib.Data.List.MinMax
import Mathlib.Algebra.Order.BigOperators.Group.List
import Mathlib.Algebra.Order.Group.Nat
import Mathlib.Algebra.GroupWithZero.Nat
import SeededText.Proofs.Expansion.Reach

/-!
# How much an expansion can do

Values may refer to each other in circles, so neither the template nor the catalog alone bounds an
expansion: the limits do.  No stage has a node on its agenda that stands deeper than the nesting
limit.  And every move keeps accounts, in which the budget is shared by all that is still to be
walked:

* a value that is opened is paid for with one of the budget, and brings at most so many references
  and so much literal text onto the agenda as the largest value has;
* a reference that is resolved was on the agenda, and writes at most one text of its own.

`variation_bounded` is what is left of the accounts when the agenda is empty.
-/

namespace SeededText

/-! ## 1. Sizes -/

def Node.name? : Node → Option String
  | .variable name => some name
  | .literal _ | .conditional .. | .optionGroup .. => none

def Node.text? : Node → Option String
  | .literal text => some text
  | .variable _ | .conditional .. | .optionGroup .. => none

/-- The names that nodes and the nodes inside them refer to, each as often as it stands there. -/
def references (nodes : List Node) : List String :=
  (Node.visitsList nodes).filterMap Node.name?

/-- The number of characters in the literal text of nodes and the nodes inside them. -/
def literalLength (nodes : List Node) : Nat :=
  (((Node.visitsList nodes).filterMap Node.text?).map String.length).sum

def largest (sizes : List Nat) : Nat :=
  sizes.foldr max 0

def Catalog.texts (c : Catalog) : List String :=
  c.entries.flatMap fun e => e.values.map Candidate.text

/-- The templates that values of the catalog are. -/
def Catalog.templates (c : Catalog) : List Template :=
  c.texts.filterMap fun text => (Template.read text).toOption

/-- The most references that a value has. -/
def Catalog.mostReferences (c : Catalog) : Nat :=
  largest (c.templates.map fun template => (references template.nodes).length)

/-- The most characters that a value has in its literal text. -/
def Catalog.mostLiteral (c : Catalog) : Nat :=
  largest (c.templates.map fun template => literalLength template.nodes)

/-- The names that the template or a value refers to. -/
def Request.names (r : Request) : List String :=
  references r.template.nodes
    ++ r.catalog.templates.flatMap fun template => references template.nodes

/-- The length of the longest text that may stand for a reference: a value's or a placeholder. -/
def Request.longestText (r : Request) : Nat :=
  largest (r.catalog.texts.map String.length ++ r.names.map fun name => (placeholder name).length)

namespace Trace

def isOpening : Event → Bool
  | .opened .. => true
  | _ => false

def isResolution : Event → Bool
  | .use ⟨.variable _, _⟩ => true
  | _ => false

/-- How many values were opened. -/
def openings (trace : Trace) : Nat :=
  trace.countP isOpening

/-- How many references to variables were resolved. -/
def resolutions (trace : Trace) : Nat :=
  trace.countP isResolution

@[simp]
theorem openings_append (before after : Trace) :
    openings (before ++ after) = openings before + openings after :=
  List.countP_append

@[simp]
theorem resolutions_append (before after : Trace) :
    resolutions (before ++ after) = resolutions before + resolutions after :=
  List.countP_append

theorem openings_cons (event : Event) (trace : Trace) :
    openings (event :: trace) = (if isOpening event then 1 else 0) + openings trace := by
  rw [openings, List.countP_cons, Nat.add_comm]
  rfl

theorem resolutions_cons (event : Event) (trace : Trace) :
    resolutions (event :: trace) = (if isResolution event then 1 else 0) + resolutions trace := by
  rw [resolutions, List.countP_cons, Nat.add_comm]
  rfl

@[simp]
theorem openings_problems (ps : List Problem) : openings (ps.map .problem) = 0 := by
  simp [openings, isOpening, List.countP_eq_zero]

@[simp]
theorem resolutions_problems (ps : List Problem) : resolutions (ps.map .problem) = 0 := by
  simp [resolutions, isResolution, List.countP_eq_zero]

end Trace

theorem le_largest {α : Type} {f : α → Nat} {xs : List α} {x : α} (h : x ∈ xs) :
    f x ≤ largest (xs.map f) :=
  List.le_max_of_le' 0 (List.mem_map_of_mem h) (Nat.le_refl _)

section

variable {before after nodes : List Node}

theorem references_append :
    references (before ++ after) = references before ++ references after := by
  rw [references, Node.visitsList_append, List.filterMap_append, references, references]

theorem literalLength_append :
    literalLength (before ++ after) = literalLength before + literalLength after := by
  simp [literalLength, Node.visitsList_append]

/-- Nodes that are visited when others are have no more references. -/
theorem references_length_le (h : (Node.visitsList before).Sublist (Node.visitsList after)) :
    (references before).length ≤ (references after).length :=
  (h.filterMap Node.name?).length_le

theorem literalLength_le (h : (Node.visitsList before).Sublist (Node.visitsList after)) :
    literalLength before ≤ literalLength after :=
  ((h.filterMap Node.text?).map String.length).sum_le_sum fun _ _ => Nat.zero_le _

end

/-! ## 2. What is reached is counted -/

section

variable {r : Request} {name text : String} {e : Entry} {value : Candidate} {template : Template}

theorem mem_texts (hget : r.catalog.get? name = some e) (hmem : value ∈ e.values) :
    value.text ∈ r.catalog.texts :=
  List.mem_flatMap.2 ⟨e, List.mem_of_find?_eq_some hget, List.mem_map_of_mem hmem⟩

theorem mem_templates {c : Catalog} (h : text ∈ c.texts) (hread : Template.read text = .ok template) :
    template ∈ c.templates :=
  List.mem_filterMap.2 ⟨text, h, by rw [hread]; rfl⟩

theorem mem_references {nodes : List Node} :
    name ∈ references nodes ↔ .variable name ∈ Node.visitsList nodes := by
  rw [references, List.mem_filterMap]
  constructor
  · rintro ⟨node, hmem, hname⟩
    cases node <;> cases hname
    exact hmem
  · intro hmem
    exact ⟨_, hmem, rfl⟩

/-- Every variable that is reached is among the names that are counted. -/
theorem Request.Reaches.mem_names (h : r.Reaches (.variable name)) : name ∈ r.names := by
  generalize hnode : Node.variable name = node at h
  cases h with
  | template hmem =>
    rw [← hnode] at hmem
    exact List.mem_append_left _ (mem_references.2 hmem)
  | value _ hget hvalue hread hmem =>
    rw [← hnode] at hmem
    have htemplate := mem_templates (mem_texts hget hvalue) hread
    exact List.mem_append_right _ (List.mem_flatMap.2 ⟨_, htemplate, mem_references.2 hmem⟩)

theorem placeholder_le (h : r.Reaches (.variable name)) :
    (placeholder name).length ≤ r.longestText :=
  List.le_max_of_le' 0 (List.mem_append_right _ (List.mem_map_of_mem h.mem_names)) (Nat.le_refl _)

theorem text_le (h : text ∈ r.catalog.texts) : text.length ≤ r.longestText :=
  List.le_max_of_le' 0 (List.mem_append_left _ (List.mem_map_of_mem h)) (Nat.le_refl _)

end

/-! ## 3. Accounts -/

/-- What was opened, resolved and written, together with what is left on the agenda, is no more than
there was on the agenda and what the opened values brought onto it. -/
structure Accounts (r : Request) (nodes : List Node) (tally : Tally) (events : Trace)
    (left : List Node) (after : Tally) : Prop where
  openings : Trace.openings events + after.budget = tally.budget
  resolutions : Trace.resolutions events + (references left).length
    ≤ (references nodes).length + Trace.openings events * r.catalog.mostReferences
  written : (Trace.text events).length + literalLength left
    ≤ literalLength nodes + Trace.openings events * r.catalog.mostLiteral
      + Trace.resolutions events * r.longestText

section

variable {r : Request} {s : Setting} {level : Nat} {tally middle after : Tally} {name text : String}
  {node : Node} {nodes left later : List Node} {events events' : Trace} {items : List Item}

theorem Accounts.refl (r : Request) (nodes : List Node) (tally : Tally) :
    Accounts r nodes tally [] nodes tally where
  openings := Nat.zero_add _
  resolutions := by simp [Trace.resolutions]
  written := by
    rw [Trace.text_nil, String.length_empty]
    omega

theorem Accounts.trans (h : Accounts r nodes tally events left middle)
    (h' : Accounts r left middle events' later after) :
    Accounts r nodes tally (events ++ events') later after where
  openings := by
    have hopenings := h.openings
    have hopenings' := h'.openings
    rw [Trace.openings_append]
    omega
  resolutions := by
    have hresolutions := h.resolutions
    have hresolutions' := h'.resolutions
    rw [Trace.openings_append, Trace.resolutions_append, Nat.add_mul]
    omega
  written := by
    have hwritten := h.written
    have hwritten' := h'.written
    rw [Trace.openings_append, Trace.resolutions_append, Trace.text_append, String.length_append,
      Nat.add_mul, Nat.add_mul]
    omega

/-- What comes later on the agenda stays there. -/
theorem Accounts.before (h : Accounts r nodes tally events left after) (rest : List Node) :
    Accounts r (nodes ++ rest) tally events (left ++ rest) after where
  openings := h.openings
  resolutions := by
    have hresolutions := h.resolutions
    rw [references_append, references_append, List.length_append, List.length_append]
    omega
  written := by
    have hwritten := h.written
    rw [literalLength_append, literalLength_append]
    omega

/-- Going on with nodes that are visited inside others, after events that are not counted. -/
theorem accounts_of_sublist (h : (Node.visitsList left).Sublist (Node.visitsList nodes))
    (hopenings : Trace.openings events = 0) (hresolutions : Trace.resolutions events = 0)
    (htext : Trace.text events = "") : Accounts r nodes tally events left tally where
  openings := by rw [hopenings, Nat.zero_add]
  resolutions := by
    have hlength := references_length_le h
    rw [hopenings, hresolutions]
    omega
  written := by
    have hlength := literalLength_le h
    rw [htext, String.length_empty, hopenings, hresolutions]
    omega

/-- What a value's text comes to in the place of its variable. -/
theorem Places.accounts (h : Places s level tally name text events items after)
    (htext : text ∈ r.catalog.texts) :
    Trace.openings events + after.budget = tally.budget ∧ Trace.resolutions events = 0 ∧
      (references (items.map Item.node)).length
        ≤ Trace.openings events * r.catalog.mostReferences ∧
      (Trace.text events).length + literalLength (items.map Item.node)
        ≤ Trace.openings events * r.catalog.mostLiteral + r.longestText := by
  have hlength := text_le htext
  -- in all cases but one the text is written and nothing is left to be walked for it
  have hwritten : ∀ {events : Trace}, Trace.text events = text → Trace.resolutions events = 0 →
      Trace.resolutions events = 0 ∧ (references []).length
          ≤ Trace.openings events * r.catalog.mostReferences ∧
        (Trace.text events).length + literalLength []
          ≤ Trace.openings events * r.catalog.mostLiteral + r.longestText := by
    intro events heq hresolutions
    refine ⟨hresolutions, Nat.zero_le _, ?_⟩
    rw [heq]
    exact Nat.le_trans hlength (Nat.le_add_left _ _)
  cases h with
  | plain =>
    exact ⟨Nat.zero_add _, hwritten (by simp [Trace.text_cons, Trace.written?]) rfl⟩
  | opened _ _ hne hread =>
    have htemplate := mem_templates htext hread
    have hreferences := le_largest (f := fun template => (references template.nodes).length) htemplate
    have hliteral := le_largest (f := fun template => literalLength template.nodes) htemplate
    have hopenings : Trace.openings [.opened name (level + 1)] = 1 := rfl
    have hsilent : Trace.text [.opened name (level + 1)] = "" := rfl
    rw [map_node_atLevel, hopenings, hsilent, Nat.one_mul, Nat.one_mul, String.length_empty,
      Nat.zero_add]
    refine ⟨?_, rfl, hreferences, Nat.le_add_right_of_le hliteral⟩
    show 1 + (tally.budget - 1) = tally.budget
    omega
  | invalid _ _ hne =>
    refine ⟨?_, hwritten (by simp [Trace.text_cons, Trace.written?]) rfl⟩
    show 1 + (tally.budget - 1) = tally.budget
    omega
  | closed | closedAgain =>
    exact ⟨Nat.zero_add _, hwritten (by simp [Trace.text_cons, Trace.written?]) rfl⟩

/-- A resolved reference is one less on the agenda, and writes one text at most. -/
theorem accounts_of_resolution {key : Draw.Key} (hslot : key.slot = .variable name) (ps : List Problem)
    (hopenings : Trace.openings events + after.budget = tally.budget)
    (hresolutions : Trace.resolutions events = 0)
    (hreferences : (references left).length ≤ Trace.openings events * r.catalog.mostReferences)
    (hwritten : (Trace.text events).length + literalLength left
      ≤ Trace.openings events * r.catalog.mostLiteral + r.longestText) :
    Accounts r [.variable name] tally (.use key :: (ps.map .problem ++ events)) left after := by
  obtain ⟨slot, occurrence⟩ := key
  cases hslot
  have hone : references [.variable name] = [name] := rfl
  have hnone : literalLength [.variable name] = 0 := rfl
  have htotal : Trace.openings (.use ⟨.variable name, occurrence⟩ :: (ps.map .problem ++ events))
      = Trace.openings events := by
    simp [Trace.openings_cons, Trace.isOpening]
  have hresolved : Trace.resolutions
      (.use ⟨.variable name, occurrence⟩ :: (ps.map .problem ++ events)) = 1 := by
    simp [Trace.resolutions_cons, Trace.isResolution, hresolutions]
  have htext : Trace.text (.use ⟨.variable name, occurrence⟩ :: (ps.map .problem ++ events))
      = Trace.text events := by
    simp [Trace.text_cons, Trace.written?]
  refine ⟨?_, ?_, ?_⟩
  · rw [htotal]
    exact hopenings
  · rw [htotal, hresolved, hone, List.length_singleton]
    omega
  · rw [htotal, hresolved, htext, hnone, Nat.one_mul]
    omega

/-- Using an option group and recording problems are not counted. -/
theorem accounts_of_group {key : Draw.Key} {index : Nat} (hslot : key.slot = .optionGroup index)
    (ps : List Problem) (h : (Node.visitsList left).Sublist (Node.visitsList nodes))
    {event : Event} (hevent : event = .draw key ∨ ∃ p, event = .problem p) :
    Accounts r nodes tally (.use key :: (ps.map .problem ++ [event])) left
      (tally.use (.optionGroup index)) := by
  obtain ⟨slot, occurrence⟩ := key
  cases hslot
  have haccounts : Accounts r nodes tally
      (.use ⟨.optionGroup index, occurrence⟩ :: (ps.map .problem ++ [event])) left tally := by
    apply accounts_of_sublist h
    · rcases hevent with rfl | ⟨p, rfl⟩ <;> simp [Trace.isOpening, Trace.openings]
    · rcases hevent with rfl | ⟨p, rfl⟩ <;> simp [Trace.isResolution, Trace.resolutions]
    · rcases hevent with rfl | ⟨p, rfl⟩ <;> simp [Trace.text_cons, Trace.written?]
  exact ⟨haccounts.openings, haccounts.resolutions, haccounts.written⟩

/-- Every move of a reached node keeps the accounts. -/
theorem Move.accounts (hcatalog : s.catalog = r.catalog)
    (h : Move s level tally node events items after) (hreach : r.Reaches node) :
    Accounts r [node] tally events (items.map Item.node) after := by
  cases h with
  | literal text =>
    have hliteral : literalLength [.literal text] = text.length := rfl
    have hwritten : Trace.text [.text text] = text := by simp [Trace.text_cons, Trace.written?]
    refine ⟨Nat.zero_add _, Nat.zero_le _, ?_⟩
    rw [hliteral, hwritten]
    exact Nat.le_add_right_of_le (Nat.le_add_right _ _)
  | thenBranch =>
    rw [map_node_atLevel]
    exact accounts_of_sublist thenBranch_sublist rfl rfl rfl
  | elseBranch =>
    rw [map_node_atLevel]
    exact accounts_of_sublist elseBranch_sublist rfl rfl rfl
  | malformed =>
    rw [map_node_atLevel]
    exact accounts_of_sublist elseBranch_sublist rfl rfl rfl
  | option hpick =>
    rw [map_node_atLevel]
    exact accounts_of_group (slot_nextKey _ _) _ (body_sublist (mem_of_pick? hpick)) (.inl rfl)
  | @noOption index options =>
    have hnone : (Node.visitsList []).Sublist (Node.visitsList [.optionGroup index options]) :=
      List.nil_sublist _
    exact accounts_of_group (slot_nextKey _ _) _ hnone (.inr ⟨_, rfl⟩)
  | @noValue name problem =>
    have hplaceholder := placeholder_le hreach
    have hwritten : Trace.text [.problem problem, .text (placeholder name)] = placeholder name := by
      simp [Trace.text_cons, Trace.written?]
    refine accounts_of_resolution (slot_nextKey _ _) _ (Nat.zero_add _) rfl (Nat.zero_le _) ?_
    rw [hwritten]
    exact Nat.le_trans hplaceholder (Nat.le_add_left _ _)
  | value hpick hplaces =>
    obtain ⟨e, value, hget, hmem, -, htext⟩ := pickText_eq_ok hpick
    rw [hcatalog] at hget
    have hmem := mem_texts hget hmem
    rw [htext] at hmem
    obtain ⟨hopenings, hresolutions, hreferences, hwritten⟩ := hplaces.accounts hmem
    exact accounts_of_resolution (slot_nextKey _ _) _ hopenings hresolutions hreferences hwritten

/-- All moves together keep the accounts. -/
theorem Moves.accounts {start finish : Stage} (hcatalog : s.catalog = r.catalog)
    (h : Moves s start events finish) (hreach : r.ReachesAll (start.agenda.map Item.node)) :
    Accounts r (start.agenda.map Item.node) start.tally events (finish.agenda.map Item.node)
      finish.tally := by
  induction h with
  | refl stage => exact .refl r _ _
  | @move level node agenda items tally after events later finish hmove _ ih =>
    have hfirst := (hmove.accounts hcatalog hreach.head).before (agenda.map Item.node)
    have hlater := ih (hmove.reaches_agenda hcatalog hreach)
    rw [List.map_append] at hlater
    exact hfirst.trans hlater

end

/-! ## 4. Levels -/

section

variable {s : Setting} {level : Nat} {tally after : Tally} {name text : String} {node : Node}
  {events : Trace} {items agenda : List Item}

theorem Move.opened_level_le (h : Move s level tally node events items after) {opened : String}
    {deep : Nat} (hmem : .opened opened deep ∈ events) : deep ≤ s.maxLevel := by
  cases h with
  | value _ hplaces =>
    cases hplaces with
    | opened _ hlt | invalid _ hlt =>
      obtain ⟨rfl, rfl⟩ : opened = _ ∧ deep = level + 1 := by simpa using hmem
      exact hlt
    | plain | closed | closedAgain => simp at hmem
  | literal | thenBranch | elseBranch | malformed | option | noOption | noValue => simp at hmem

theorem Move.level_le (h : Move s level tally node events items after)
    (hlevel : level ≤ s.maxLevel) : ∀ item ∈ items, item.level ≤ s.maxLevel := by
  have hsame : ∀ {level' : Nat} (nodes : List Node), level' ≤ s.maxLevel →
      ∀ item ∈ atLevel level' nodes, item.level ≤ s.maxLevel := by
    intro level' nodes hle item hitem
    obtain ⟨node, -, rfl⟩ := List.mem_map.1 hitem
    exact hle
  cases h with
  | literal | noOption | noValue => exact fun _ hitem => nomatch hitem
  | thenBranch | elseBranch | malformed | option => exact hsame _ hlevel
  | value _ hplaces =>
    cases hplaces with
    | opened _ hlt => exact hsame _ hlt
    | plain | invalid | closed | closedAgain => exact fun _ hitem => nomatch hitem

/-- Every value that is opened stands within the limit. -/
theorem Moves.opened_level_le {start finish : Stage} (h : Moves s start events finish)
    {opened : String} {deep : Nat} (hmem : .opened opened deep ∈ events) : deep ≤ s.maxLevel := by
  induction h with
  | refl => cases hmem
  | move hmove _ ih =>
    rcases List.mem_append.1 hmem with hfirst | hlater
    · exact hmove.opened_level_le hfirst
    · exact ih hlater

/-- No stage has a node on its agenda that stands deeper than the limit. -/
theorem Moves.level_le {start finish : Stage} (h : Moves s start events finish)
    (hstart : ∀ item ∈ start.agenda, item.level ≤ s.maxLevel) :
    ∀ item ∈ finish.agenda, item.level ≤ s.maxLevel := by
  refine h.invariant (P := fun stage => ∀ item ∈ stage.agenda, item.level ≤ s.maxLevel) ?_ hstart
  intro level tally node events items after agenda hmove hagenda
  obtain ⟨hnode, hagenda⟩ := List.forall_mem_cons.1 hagenda
  exact List.forall_mem_append.2 ⟨hmove.level_le hnode, hagenda⟩

end

/-! ## 5. Variations -/

/-- What was opened and what may still be opened are the budget of the variation. -/
theorem openings_add_budget {r : Request} {limits : Limits} {seed : String} {index : Nat}
    {past : Trace} {stage : Stage}
    (h : Moves (r.setting limits seed index) (r.start limits) past stage) :
    past.openings + stage.tally.budget = limits.maxExpansions :=
  (h.accounts rfl (reachesAll_start r limits)).openings

/-- Whatever the catalog is, a variation opens no more values than the budget has, walks nothing that
stands deeper than the nesting limit, resolves no more references than the template has and so many
opened values can add, and writes no more than their literal text and one text for each reference.

The stages are those of the run behind the trace: what the trace has after the events in the past are
the moves that are left from there (and `trace_eq_iff_moves` says of the whole trace that it is that
of the moves from the start). -/
theorem variation_bounded (r : Request) (limits : Limits) (seed : String) (index : Nat) :
    (r.trace limits seed index).openings ≤ limits.maxExpansions ∧
    (∀ stage events, Moves (r.setting limits seed index) (r.start limits) events stage →
      (∀ item ∈ stage.agenda, item.level ≤ limits.maxRecursionDepth) ∧
      ∃ later finish, finish.agenda = [] ∧
        Moves (r.setting limits seed index) stage later finish ∧
        r.trace limits seed index = events ++ later) ∧
    (∀ name level, .opened name level ∈ r.trace limits seed index →
      level ≤ limits.maxRecursionDepth) ∧
    (r.trace limits seed index).resolutions
      ≤ (references r.template.nodes).length
        + limits.maxExpansions * r.catalog.mostReferences ∧
    (r.variation limits seed index).text.length
      ≤ literalLength r.template.nodes + limits.maxExpansions * r.catalog.mostLiteral
        + ((references r.template.nodes).length
          + limits.maxExpansions * r.catalog.mostReferences) * r.longestText := by
  obtain ⟨finish, hend, hmoves⟩ := exists_moves r limits seed index
  have haccounts := hmoves.accounts rfl (reachesAll_start r limits)
  rw [hend, Request.start, map_node_atLevel] at haccounts
  have hopenings : (r.trace limits seed index).openings ≤ limits.maxExpansions :=
    Nat.le.intro haccounts.openings
  have hresolutions : (r.trace limits seed index).resolutions
      ≤ (references r.template.nodes).length
        + limits.maxExpansions * r.catalog.mostReferences :=
    calc (r.trace limits seed index).resolutions
        ≤ (references r.template.nodes).length
          + (r.trace limits seed index).openings * r.catalog.mostReferences := haccounts.resolutions
      _ ≤ _ := Nat.add_le_add_left (Nat.mul_le_mul_right _ hopenings) _
  refine ⟨hopenings, ?_, fun _ _ hmem => hmoves.opened_level_le hmem, hresolutions, ?_⟩
  · intro stage events hstage
    refine ⟨hstage.level_le fun item hitem => ?_, hstage.exists_trace_eq⟩
    obtain ⟨node, -, rfl⟩ := List.mem_map.1 hitem
    exact Nat.zero_le _
  · calc (r.variation limits seed index).text.length
        ≤ literalLength r.template.nodes
          + (r.trace limits seed index).openings * r.catalog.mostLiteral
          + (r.trace limits seed index).resolutions * r.longestText := haccounts.written
      _ ≤ _ := Nat.add_le_add
        (Nat.add_le_add_left (Nat.mul_le_mul_right _ hopenings) _)
        (Nat.mul_le_mul_right _ hresolutions)

end SeededText
