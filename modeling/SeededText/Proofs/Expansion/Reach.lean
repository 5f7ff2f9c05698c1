import SeededText.Proofs.Expansion.Moves

/-!
# What an expansion can reach

An expansion reaches the nodes of its template and, through each variable it reaches, those of the
values that the catalog has for it.  `Request.Reaches` is the least such set.  It does not look at
conditions or draws, so no stage of an expansion has anything else on its agenda.

The texts asked as conditions are those of reached conditionals, options and values.
-/

namespace SeededText

/-! ## 1. Visits -/

theorem mem_visitsList {inner : Node} {nodes : List Node} :
    inner ∈ Node.visitsList nodes ↔ ∃ node ∈ nodes, inner ∈ node.visits := by
  induction nodes with
  | nil => simp [Node.visitsList]
  | cons node nodes ih => simp [Node.visitsList, ih]

theorem mem_visits_self (node : Node) : node ∈ node.visits := by
  cases node with
  | conditional _ _ elseBranch => cases elseBranch <;> exact List.mem_cons_self
  | _ => exact List.mem_cons_self

theorem visitsList_singleton (node : Node) : Node.visitsList [node] = node.visits :=
  List.append_nil _

/-! The nodes inside a node are visited with it. -/

section

variable {condition : String} {thenBranch : List Node} {elseBranch : Option (List Node)}

theorem thenBranch_sublist : (Node.visitsList thenBranch).Sublist
    (Node.visitsList [.conditional condition thenBranch elseBranch]) := by
  rw [visitsList_singleton]
  cases elseBranch with
  | none => exact List.sublist_cons_self _ _
  | some elseBranch => exact (List.sublist_append_left _ _).cons _

theorem elseBranch_sublist : (Node.visitsList (elseBranch.getD [])).Sublist
    (Node.visitsList [.conditional condition thenBranch elseBranch]) := by
  rw [visitsList_singleton]
  cases elseBranch with
  | none => exact List.nil_sublist _
  | some elseBranch => exact (List.sublist_append_right _ _).cons _

theorem body_sublist {index : Nat} {options : List (Choice Node)} {option : Choice Node}
    (h : option ∈ options) : (Node.visitsList option.body).Sublist
      (Node.visitsList [.optionGroup index options]) := by
  have hbody : (Node.visitsList option.body).Sublist (Node.visitsChoices options) := by
    induction options with
    | nil => cases h
    | cons first options ih =>
      rw [Node.visitsChoices]
      rcases List.mem_cons.1 h with rfl | h
      · exact List.sublist_append_left _ _
      · exact (ih h).trans (List.sublist_append_right _ _)
  rw [visitsList_singleton]
  exact hbody.cons _

end

/-! ## 2. Reached nodes and asked conditions -/

/-- A node that an expansion may come to: one of the template's, or one of a value's that a variable
it may come to has in the catalog. -/
inductive Request.Reaches (r : Request) : Node → Prop where
  | template {node : Node} : node ∈ r.template.visits → r.Reaches node
  | value {name : String} {e : Entry} {value : Candidate} {template : Template} {node : Node} :
      r.Reaches (.variable name) → r.catalog.get? name = some e → value ∈ e.values →
        Template.read value.text = .ok template → node ∈ template.visits → r.Reaches node

/-- A text that an expansion may have to decide as a condition. -/
inductive Request.Asks (r : Request) : String → Prop where
  | conditional {condition : String} {thenBranch : List Node} {elseBranch : Option (List Node)} :
      r.Reaches (.conditional condition thenBranch elseBranch) → r.Asks condition
  | option {index : Nat} {options : List (Choice Node)} {option : Choice Node}
      {condition : String} : r.Reaches (.optionGroup index options) → option ∈ options →
        option.condition = some condition → r.Asks condition
  | value {name : String} {e : Entry} {value : Candidate} {condition : String} :
      r.Reaches (.variable name) → r.catalog.get? name = some e → value ∈ e.values →
        value.condition = some condition → r.Asks condition

/-- The names that are reached are the least set with those of the template's variables that is
closed under the variables of its values. -/
theorem Request.reaches_least {r : Request} {P : String → Prop}
    (htemplate : ∀ name, .variable name ∈ r.template.visits → P name)
    (hvalues : ∀ name e value template inner, P name → r.catalog.get? name = some e →
      value ∈ e.values → Template.read value.text = .ok template →
        .variable inner ∈ template.visits → P inner) {name : String}
    (h : r.Reaches (.variable name)) : P name := by
  generalize hnode : Node.variable name = node at h
  induction h generalizing name with
  | template hmem =>
    rw [← hnode] at hmem
    exact htemplate name hmem
  | value _ hget hvalue hread hmem ih =>
    rw [← hnode] at hmem
    exact hvalues _ _ _ _ _ (ih rfl) hget hvalue hread hmem

/-- All that stands in the nodes is reached. -/
def Request.ReachesAll (r : Request) (nodes : List Node) : Prop :=
  ∀ node ∈ Node.visitsList nodes, r.Reaches node

section

variable {r : Request} {s : Setting} {level : Nat} {tally after : Tally} {name text : String}
  {node : Node} {nodes : List Node} {events : Trace} {items agenda : List Item}

theorem reachesAll_append {before after : List Node} :
    r.ReachesAll (before ++ after) ↔ r.ReachesAll before ∧ r.ReachesAll after := by
  unfold Request.ReachesAll
  rw [Node.visitsList_append, List.forall_mem_append]

theorem Request.ReachesAll.head (h : r.ReachesAll (node :: nodes)) : r.Reaches node :=
  h node (mem_visitsList.2 ⟨node, List.mem_cons_self, mem_visits_self node⟩)

theorem Request.ReachesAll.sublist {before after : List Node} (h : r.ReachesAll after)
    (hsub : (Node.visitsList before).Sublist (Node.visitsList after)) : r.ReachesAll before :=
  fun inner hinner => h inner (hsub.subset hinner)

@[simp]
theorem map_node_atLevel (level : Nat) (nodes : List Node) :
    (atLevel level nodes).map Item.node = nodes := by
  simp [atLevel, Function.comp_def]

/-- A value's text, put in the place of a variable that is reached, holds only what is reached. -/
theorem Places.reaches (h : Places s level tally name text events items after) {e : Entry}
    {value : Candidate} (hreach : r.Reaches (.variable name)) (hget : r.catalog.get? name = some e)
    (hmem : value ∈ e.values) (htext : value.text = text) : r.ReachesAll (items.map Item.node) := by
  cases h with
  | opened _ _ _ hread =>
    rw [map_node_atLevel]
    intro inner hinner
    rw [← htext] at hread
    exact .value hreach hget hmem hread hinner
  | plain | invalid | closed | closedAgain => exact fun _ hinner => nomatch hinner

/-- What a move puts on the agenda is reached. -/
theorem Move.reaches (hcatalog : s.catalog = r.catalog)
    (h : Move s level tally node events items after) (hreach : r.ReachesAll [node]) :
    r.ReachesAll (items.map Item.node) := by
  cases h with
  | literal | noOption | noValue => exact fun _ hinner => nomatch hinner
  | thenBranch =>
    rw [map_node_atLevel]
    exact hreach.sublist thenBranch_sublist
  | elseBranch | malformed =>
    rw [map_node_atLevel]
    exact hreach.sublist elseBranch_sublist
  | option hpick =>
    rw [map_node_atLevel]
    exact hreach.sublist (body_sublist (mem_of_pick? hpick))
  | value hpick hplaces =>
    obtain ⟨e, value, hget, hmem, -, htext⟩ := pickText_eq_ok hpick
    rw [hcatalog] at hget
    exact hplaces.reaches hreach.head hget hmem htext

theorem Move.reaches_agenda (hcatalog : s.catalog = r.catalog)
    (h : Move s level tally node events items after)
    (hreach : r.ReachesAll (node :: agenda.map Item.node)) :
    r.ReachesAll ((items ++ agenda).map Item.node) := by
  rw [List.map_append]
  obtain ⟨hnode, hagenda⟩ := reachesAll_append.1 (show r.ReachesAll ([node] ++ _) from hreach)
  exact reachesAll_append.2 ⟨h.reaches hcatalog hnode, hagenda⟩

theorem reachesAll_start (r : Request) (limits : Limits) :
    r.ReachesAll ((r.start limits).agenda.map Item.node) := by
  rw [Request.start, map_node_atLevel]
  exact fun node hnode => .template hnode

/-- No stage of an expansion has anything on its agenda that is not reached. -/
theorem Moves.reaches {start finish : Stage} (hcatalog : s.catalog = r.catalog)
    (h : Moves s start events finish) (hreach : r.ReachesAll (start.agenda.map Item.node)) :
    r.ReachesAll (finish.agenda.map Item.node) :=
  h.invariant (P := fun stage => r.ReachesAll (stage.agenda.map Item.node))
    (fun hmove hagenda => hmove.reaches_agenda hcatalog hagenda) hreach

end

end SeededText
