import Mathlib.Data.List.Nodup
import SeededText.Proofs.Template.Flat

/-!
# The names of a template

The names that a template refers to are collected while its nodes are walked, each when it is met
for the first time.  This is the fold of `addName` over all its references, so the order of the walk
is that of the visits and a name is collected if and only if it is referred to.

Collecting names and looking for something to expand are walks of their own, which do not go through
the list of visits: the one carries the names so far, and the other never looks inside a node.
`walks_agree` says of both what they find by what the visits come to.
-/

namespace SeededText

/-! ## 1. References of nodes -/

section

variable {name condition : String} {index : Nat} {thenBranch elseBranch body : List Node}
  {options : List (Choice Node)}

theorem references_singleton (node : Node) :
    references [node] = node.visits.filterMap Node.name? := by
  rw [references, visitsList_singleton]

theorem references_conditional_none :
    references [.conditional condition thenBranch none] = references thenBranch := by
  rw [references_singleton]
  rfl

theorem references_conditional_some :
    references [.conditional condition thenBranch (some elseBranch)]
      = references thenBranch ++ references elseBranch := by
  rw [references_singleton, references, references, ← List.filterMap_append]
  rfl

theorem references_optionGroup_cons {title : String} {admits : Option String} :
    references [.optionGroup index (⟨title, admits, body⟩ :: options)]
      = references body ++ references [.optionGroup index options] := by
  rw [references_singleton, references_singleton, references]
  exact List.filterMap_append

end

/-! ## 2. Collecting -/

theorem mem_foldl_addName {names more : List String} {name : String} :
    name ∈ more.foldl addName names ↔ name ∈ names ∨ name ∈ more := by
  induction more generalizing names with
  | nil => simp
  | cons first more ih =>
    have hadd : name ∈ addName names first ↔ name ∈ names ∨ name = first := by
      unfold addName
      split
      · next hmem =>
        constructor
        · exact .inl
        · rintro (h | rfl)
          · exact h
          · simpa using hmem
      · simp
    rw [List.foldl_cons, ih, hadd, List.mem_cons, or_assoc]

mutual

theorem collectNames_eq_foldl (names : List String) :
    ∀ node, Node.collectNames names node = (references [node]).foldl addName names
  | .literal _ | .variable _ => rfl
  | .conditional _ thenBranch none => by
    rw [Node.collectNames, references_conditional_none, collectNamesList_eq_foldl names thenBranch]
  | .conditional _ thenBranch (some elseBranch) => by
    rw [Node.collectNames, references_conditional_some, List.foldl_append,
      collectNamesList_eq_foldl names thenBranch, collectNamesList_eq_foldl _ elseBranch]
  | .optionGroup index options => collectNamesChoices_eq_foldl names index options

/-- The names collected from nodes are those of their references, in order, each once. -/
theorem collectNamesList_eq_foldl (names : List String) :
    ∀ nodes, Node.collectNamesList names nodes = (references nodes).foldl addName names
  | [] => rfl
  | node :: nodes => by
    rw [Node.collectNamesList, ← List.singleton_append, references_append, List.foldl_append,
      collectNames_eq_foldl names node, collectNamesList_eq_foldl _ nodes]

theorem collectNamesChoices_eq_foldl (names : List String) (index : Nat) :
    ∀ options : List (Choice Node), Node.collectNamesChoices names options
      = (references [.optionGroup index options]).foldl addName names
  | [] => rfl
  | ⟨_, _, body⟩ :: options => by
    rw [Node.collectNamesChoices, references_optionGroup_cons, List.foldl_append,
      collectNamesList_eq_foldl names body, collectNamesChoices_eq_foldl _ index options]

end

theorem mem_variableNames {template : Template} {name : String} :
    name ∈ template.variableNames ↔ name ∈ references template.nodes := by
  rw [Template.variableNames, collectNamesList_eq_foldl, mem_foldl_addName]
  simp

/-! ## 3. Each name once -/

theorem nodup_addName {names : List String} (h : names.Nodup) (name : String) :
    (addName names name).Nodup := by
  unfold addName
  split
  · exact h
  · next hnew =>
    rw [← List.concat_eq_append, List.nodup_concat]
    exact ⟨by simpa using hnew, h⟩

theorem nodup_foldl_addName {names : List String} (h : names.Nodup) (more : List String) :
    (more.foldl addName names).Nodup := by
  induction more generalizing names with
  | nil => exact h
  | cons name more ih => exact ih (nodup_addName h name)

/-- Adding names to none keeps each where it stands first. -/
theorem foldl_addName_nil (names : List String) :
    names.foldl addName [] = names.eraseDups := by
  -- from the end, where the last name is held against all those in front of it
  induction names using List.reverseRecOn with
  | nil => rfl
  | append_singleton names name ih =>
    rw [List.foldl_append, ih, List.eraseDups_append, List.foldl_cons, List.foldl_nil]
    by_cases hmem : name ∈ names
    · simp [addName, List.removeAll, hmem]
    · simp [addName, List.removeAll, hmem, List.eraseDups_cons]

/-! ## 4. Nothing to expand -/

theorem isLiteral_iff {node : Node} : node.isLiteral = true ↔ ∃ text, node = .literal text := by
  cases node <;> simp [Node.isLiteral]

/-- Nothing stands inside a literal, so a template of literals is visited as it is. -/
theorem visits_of_isStatic {template : Template} (h : template.isStatic = true) :
    template.visits = template.nodes :=
  visitsList_of_isFlat (isFlat_of_isStatic h)

theorem isStatic_iff_visits {template : Template} :
    template.isStatic = true ↔ ∀ node ∈ template.visits, ∃ text, node = .literal text := by
  constructor
  · intro hstatic node hmem
    rw [visits_of_isStatic hstatic] at hmem
    exact isLiteral_iff.1 (List.all_eq_true.1 hstatic node hmem)
  · intro hvisits
    refine List.all_eq_true.2 fun node hmem => isLiteral_iff.2 (hvisits node ?_)
    exact mem_visitsList.2 ⟨node, hmem, mem_visits_self node⟩

/-- The walks of a template agree.  The names are those of the visited variables, in the order of the
visits, each where it stands first and nowhere else; and a template has nothing to expand if and only
if literals alone are visited. -/
theorem walks_agree (template : Template) :
    template.variableNames.Nodup ∧
      template.variableNames = (template.visits.filterMap Node.name?).eraseDups ∧
        (template.isStatic = true ↔ ∀ node ∈ template.visits, ∃ text, node = .literal text) := by
  have hnames : template.variableNames = (references template.nodes).foldl addName [] :=
    collectNamesList_eq_foldl [] template.nodes
  refine ⟨?_, ?_, isStatic_iff_visits⟩
  · rw [hnames]
    exact nodup_foldl_addName List.nodup_nil _
  · rw [hnames, foldl_addName_nil]
    rfl

end SeededText
