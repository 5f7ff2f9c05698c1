import Mathlib.Algebra.BigOperators.Group.Multiset.Basic
import Mathlib.Algebra.BigOperators.Ring.Finset
import Mathlib.Algebra.Order.Group.Multiset
import SeededText.Proofs.Expansion.Bounds
import SeededText.Proofs.Expansion.Inlining
import SeededText.Proofs.Template.Flat

/-!
# A value that refers to its own variable

Such a value would be opened for ever.  It is opened once for the reference in the template, and then
for each of its own references, level by level, until no level or no budget is left; every other
reference gets the value's text as it is.

The accounts of `Moves.accounts` bound what an expansion does.  Here they are exact.  A reference
that is opened goes off the agenda and brings `k` references on it, one that is left closed brings
none, so counting both determines how often the text is left.  How often it is opened is what is due
for the references of the agenda on their levels, and the budget cuts that at any time: what was
opened and what is still to be opened is the same all along.
-/

namespace SeededText

/-! ## 1. What is counted -/

namespace Trace

def isClosing : Event → Bool
  | .closed _ => true
  | _ => false

/-- How many values that could be opened were left as they are. -/
def closings (trace : Trace) : Nat :=
  trace.countP isClosing

/-- The texts that the events write, each as often as it is written. -/
def writings (trace : Trace) : Multiset String :=
  trace.filterMap written?

theorem closings_append (before after : Trace) :
    closings (before ++ after) = closings before + closings after :=
  List.countP_append

theorem writings_append (before after : Trace) :
    writings (before ++ after) = writings before + writings after := by
  rw [writings, List.filterMap_append, ← Multiset.coe_add]
  rfl

theorem writings_cons (event : Event) (trace : Trace) :
    writings (event :: trace) = ↑(written? event).toList + writings trace := by
  rw [← List.singleton_append, writings_append]
  cases event <;> rfl

theorem length_text (trace : Trace) :
    (text trace).length = ((writings trace).map String.length).sum := by
  induction trace with
  | nil => rfl
  | cons event trace ih =>
    rw [text_cons, String.length_append, ih, writings_cons, Multiset.map_add, Multiset.sum_add]
    cases event <;> rfl

end Trace

/-- The literal texts of nodes and the nodes inside them. -/
def literals (nodes : List Node) : Multiset String :=
  (Node.visitsList nodes).filterMap Node.text?

theorem literals_append {before after : List Node} :
    literals (before ++ after) = literals before + literals after := by
  rw [literals, Node.visitsList_append, List.filterMap_append, ← Multiset.coe_add]
  rfl

theorem literalLength_eq (nodes : List Node) :
    literalLength nodes = ((literals nodes).map String.length).sum :=
  rfl

/-- How many values are due for a reference to a value with `k` references, where so many levels are
left: one, and for each of its references what is due a level deeper. -/
def turns (k levels : Nat) : Nat :=
  ∑ i ∈ Finset.range levels, k ^ i

theorem turns_zero (k : Nat) : turns k 0 = 0 :=
  rfl

theorem turns_succ (k levels : Nat) : turns k (levels + 1) = 1 + k * turns k levels := by
  rw [turns, Finset.sum_range_succ', turns, Finset.mul_sum, pow_zero, Nat.add_comm]
  refine congrArg (1 + ·) (Finset.sum_congr rfl fun i _ => ?_)
  rw [pow_succ, Nat.mul_comm]

/-- How many values are opened for one reference under the limits. -/
def Limits.turns (limits : Limits) (k : Nat) : Nat :=
  min limits.maxExpansions (SeededText.turns k limits.maxRecursionDepth)

def Item.due (maxLevel k : Nat) : Item → Nat
  | ⟨level, .variable _⟩ => turns k (maxLevel - level)
  | ⟨_, .literal _⟩ | ⟨_, .conditional ..⟩ | ⟨_, .optionGroup ..⟩ => 0

/-- How many values are due for the references of an agenda. -/
def due (maxLevel k : Nat) (agenda : List Item) : Nat :=
  (agenda.map (Item.due maxLevel k)).sum

theorem due_append {maxLevel k : Nat} {before after : List Item} :
    due maxLevel k (before ++ after) = due maxLevel k before + due maxLevel k after := by
  simp [due]

theorem due_variable {maxLevel k level : Nat} {name : String} :
    due maxLevel k [⟨level, .variable name⟩] = turns k (maxLevel - level) :=
  Nat.add_zero _

/-! ## 2. Values in a circle -/

/-- A literal or a reference to `v`. -/
def Node.RefersOnlyTo (v : String) (node : Node) : Prop :=
  node.isLiteral = true ∨ node = .variable v

/-- The variable's only text is a template of literals and `k` references to the variable itself. -/
structure Setting.Circles (s : Setting) (v text : String) (k : Nat) (inner : Template) : Prop
    extends s.Sole v text inner where
  nodes : ∀ node ∈ inner.nodes, node.RefersOnlyTo v
  count : (references inner.nodes).length = k
  pos : 0 < k

section

variable {s : Setting} {v text : String} {k level maxLevel : Nat} {inner : Template}
  {nodes : List Node}

/-- There is a mark in the text, for there is a reference. -/
theorem Setting.Circles.hasMark (h : s.Circles v text k inner) : hasMark text = true := by
  by_contra hmark
  have hread := read_of_no_mark (Bool.eq_false_iff.2 hmark)
  rw [h.read] at hread
  cases hread
  have hcount := h.count
  rw [references_of_isStatic (isStatic_plainNodes text)] at hcount
  exact absurd hcount (Nat.ne_of_lt h.pos)

/-- For nodes on one level there is due what is due for each of their references. -/
theorem due_atLevel (h : ∀ node ∈ nodes, node.RefersOnlyTo v) :
    due maxLevel k (atLevel level nodes) = (references nodes).length * turns k (maxLevel - level) := by
  induction nodes with
  | nil => exact (Nat.zero_mul _).symm
  | cons node nodes ih =>
    obtain ⟨hnode, hnodes⟩ := List.forall_mem_cons.1 h
    have hfirst : due maxLevel k [⟨level, node⟩]
        = (references [node]).length * turns k (maxLevel - level) := by
      rcases hnode with hliteral | rfl
      · cases node with
        | literal => exact (Nat.zero_mul _).symm
        | «variable» | conditional | optionGroup => cases hliteral
      · exact due_variable.trans (Nat.one_mul _).symm
    have hitems : atLevel level (node :: nodes) = [⟨level, node⟩] ++ atLevel level nodes := rfl
    rw [hitems, due_append, hfirst, ih hnodes, references_cons node nodes, List.length_append,
      Nat.add_mul]

end

/-! ## 3. Exact accounts -/

/-- What was opened, left and written on the way from one agenda to another.  What is due may be cut
by the budget only together with all that comes later on the agenda. -/
structure Laps (s : Setting) (v text : String) (k : Nat) (inner : Template) (items : List Item)
    (tally : Tally) (events : Trace) (left : List Item) (after : Tally) : Prop where
  openings : ∀ later, Trace.openings events + min after.budget (due s.maxLevel k left + later)
    = min tally.budget (due s.maxLevel k items + later)
  closings : Trace.closings events + (references (left.map Item.node)).length
      + Trace.openings events
    = (references (items.map Item.node)).length + Trace.openings events * k
  writings : Trace.writings events + literals (left.map Item.node)
    = literals (items.map Item.node) + Trace.openings events • literals inner.nodes
      + Trace.closings events • {text}
  reported : v ∈ after.reported ↔ v ∈ tally.reported ∨ 0 < Trace.closings events
  problems : Trace.problems events
    = if v ∉ tally.reported ∧ 0 < Trace.closings events then [.maxRecursionExceeded v s.maxLevel]
      else []

section

variable {s : Setting} {v text : String} {k level : Nat} {inner : Template} {node : Node}
  {tally middle after : Tally} {items left later : List Item} {events events' : Trace}

/-- Where nothing is opened and nothing left closed, only literals are written. -/
theorem laps_of_silent (hopenings : Trace.openings events = 0)
    (hclosings : Trace.closings events = 0) (hproblems : Trace.problems events = [])
    (hbudget : after.budget = tally.budget) (hreported : after.reported = tally.reported)
    (hdue : due s.maxLevel k left = due s.maxLevel k items)
    (hreferences : references (left.map Item.node) = references (items.map Item.node))
    (hwritings : Trace.writings events + literals (left.map Item.node)
      = literals (items.map Item.node)) : Laps s v text k inner items tally events left after where
  openings _ := by rw [hopenings, hbudget, hdue, Nat.zero_add]
  closings := by rw [hopenings, hclosings, hreferences, Nat.zero_mul, Nat.zero_add]
  writings := by rw [hopenings, hclosings, hwritings, zero_nsmul, zero_nsmul, add_zero, add_zero]
  reported := by simp [hreported, hclosings]
  problems := by simp [hproblems, hclosings]

theorem Laps.trans (h : Laps s v text k inner items tally events left middle)
    (h' : Laps s v text k inner left middle events' later after) :
    Laps s v text k inner items tally (events ++ events') later after where
  openings rest := by
    have hopenings := h.openings rest
    have hopenings' := h'.openings rest
    rw [Trace.openings_append]
    omega
  closings := by
    have hclosings := h.closings
    have hclosings' := h'.closings
    rw [Trace.openings_append, Trace.closings_append, Nat.add_mul]
    omega
  writings := by
    rw [Trace.writings_append, Trace.openings_append, Trace.closings_append, add_nsmul, add_nsmul,
      add_assoc, h'.writings, ← add_assoc, ← add_assoc, h.writings]
    ac_rfl
  reported := by
    rw [h'.reported, h.reported, Trace.closings_append, Nat.add_pos_iff_pos_or_pos, or_assoc]
  problems := by
    rw [Trace.problems_append, h.problems, h'.problems, Trace.closings_append]
    have hmiddle := h.reported
    by_cases hreported : v ∈ tally.reported
    · simp [hmiddle, hreported]
    · by_cases hclosed : 0 < Trace.closings events
      · simp [hmiddle, hreported, hclosed]
      · simp [hmiddle, hreported, Nat.eq_zero_of_not_pos hclosed]

/-- What comes later on the agenda stays there. -/
theorem Laps.before (h : Laps s v text k inner items tally events left after) (rest : List Item) :
    Laps s v text k inner (items ++ rest) tally events (left ++ rest) after where
  openings later := by
    rw [due_append, due_append, Nat.add_assoc, Nat.add_assoc]
    exact h.openings _
  closings := by
    have hclosings := h.closings
    rw [List.map_append, List.map_append, references_append, references_append, List.length_append,
      List.length_append]
    omega
  writings := by
    have hwritings := h.writings
    rw [List.map_append, List.map_append, literals_append, literals_append, ← add_assoc, hwritings]
    ac_rfl
  reported := h.reported
  problems := h.problems

/-- At the end of the way from one reference nothing is due any more and no reference is left. -/
theorem Laps.finished (h : Laps s v text k inner [⟨0, .variable v⟩] tally events [] after)
    (hpos : 0 < k) (hreported : v ∉ tally.reported) :
    Trace.openings events = min tally.budget (turns k s.maxLevel) ∧
    Trace.closings events = 1 + Trace.openings events * (k - 1) ∧
    Trace.writings events
      = Trace.openings events • literals inner.nodes + Trace.closings events • {text} ∧
    Trace.problems events = [.maxRecursionExceeded v s.maxLevel] := by
  have hopenings : Trace.openings events + min after.budget 0
    = min tally.budget (turns k s.maxLevel) := h.openings 0
  have hclosings : Trace.closings events + 0 + Trace.openings events
    = 1 + Trace.openings events * k := h.closings
  have hwritings : Trace.writings events + 0
    = 0 + Trace.openings events • literals inner.nodes + Trace.closings events • {text} := h.writings
  have hcopies : Trace.closings events = 1 + Trace.openings events * (k - 1) := by
    have hsub := Nat.mul_sub_one (Trace.openings events) k
    have hle := Nat.le_mul_of_pos_right (Trace.openings events) hpos
    omega
  refine ⟨?_, hcopies, ?_, ?_⟩
  · rwa [Nat.min_zero, Nat.add_zero] at hopenings
  · rwa [add_zero, zero_add] at hwritings
  · have hclosed : 0 < Trace.closings events := by
      rw [hcopies]
      exact Nat.add_pos_left Nat.one_pos _
    rw [h.problems, if_pos ⟨hreported, hclosed⟩]

/-- A text that is left as it is pays for its reference. -/
theorem laps_of_closed (hlimit : s.maxLevel ≤ level ∨ tally.budget = 0)
    (hopenings : Trace.openings events = 0) (hclosings : Trace.closings events = 1)
    (hwritings : Trace.writings events = {text}) (hbudget : after.budget = tally.budget)
    (hreported : v ∈ after.reported)
    (hproblems : Trace.problems events
      = if v ∉ tally.reported then [.maxRecursionExceeded v s.maxLevel] else []) :
    Laps s v text k inner [⟨level, .variable v⟩] tally events [] after where
  openings later := by
    have hnone : due s.maxLevel k [] = 0 := rfl
    rw [hopenings, hbudget, hnone, Nat.zero_add, Nat.zero_add]
    rcases hlimit with hlevel | hspent
    · have hdue : due s.maxLevel k [⟨level, .variable v⟩] = 0 := by
        rw [due_variable, Nat.sub_eq_zero_of_le hlevel, turns_zero]
      rw [hdue, Nat.zero_add]
    · rw [hspent, Nat.zero_min, Nat.zero_min]
  closings := by
    rw [hopenings, hclosings, Nat.zero_mul]
    rfl
  writings := by
    rw [hopenings, hclosings, hwritings, zero_nsmul, one_nsmul]
    rfl
  reported := by simp [hreported, hclosings]
  problems := by simp [hproblems, hclosings]

/-- What takes the place of the variable keeps the accounts. -/
theorem Places.laps (hcircles : s.Circles v text k inner)
    (h : Places s level tally v text events items after) :
    Laps s v text k inner [⟨level, .variable v⟩] tally events items after := by
  cases h with
  | plain hmark =>
    rw [hcircles.hasMark] at hmark
    cases hmark
  | invalid _ _ _ hfault =>
    rw [hcircles.read] at hfault
    cases hfault
  | opened _ hlt hne hread =>
    rw [hcircles.read] at hread
    cases hread
    have hopenings : Trace.openings [.opened v (level + 1)] = 1 := rfl
    have hclosings : Trace.closings [.opened v (level + 1)] = 0 := rfl
    refine ⟨fun later => ?_, ?_, ?_, ?_, ?_⟩
    · have hlevels : s.maxLevel - level = s.maxLevel - (level + 1) + 1 := by omega
      have hspend : tally.spend.budget = tally.budget - 1 := rfl
      rw [due_variable, hlevels, turns_succ, due_atLevel hcircles.nodes, hcircles.count, hopenings,
        hspend]
      omega
    · rw [map_node_atLevel, hcircles.count, hopenings, hclosings]
      show 0 + k + 1 = 1 + 1 * k
      omega
    · rw [map_node_atLevel, hopenings, hclosings, one_nsmul, zero_nsmul, add_zero]
      rfl
    · simp [hclosings, Tally.spend]
    · simp [hclosings, Trace.problems_cons, Trace.problem?]
  | closed _ hlimit hname =>
    refine laps_of_closed hlimit rfl rfl rfl rfl List.mem_cons_self ?_
    rw [if_pos hname]
    rfl
  | closedAgain _ hlimit hname =>
    refine laps_of_closed hlimit rfl rfl rfl rfl hname ?_
    rw [if_neg (not_not_intro hname)]
    rfl

/-- A literal is written, and for the variable its text takes the place. -/
theorem Move.of_circles (hcircles : s.Circles v text k inner) (hnode : node.RefersOnlyTo v)
    (h : Move s level tally node events items after) :
    (∃ written, node = .literal written ∧ events = [.text written] ∧ items = [] ∧ after = tally) ∨
    (node = .variable v ∧ ∃ key placed, events = [.use key, .draw key] ++ placed ∧
      Places s level (tally.use (.variable v)) v text placed items after) := by
  rcases hnode with hliteral | rfl
  · cases h with
    | literal written => exact .inl ⟨written, rfl, rfl, rfl, rfl⟩
    | thenBranch | elseBranch | malformed | option | noOption | noValue | value => cases hliteral
  · cases h with
    | noValue hpick =>
      rw [hcircles.pickText] at hpick
      cases hpick
    | value hpick hplaces =>
      rw [hcircles.pickText] at hpick
      cases hpick
      rw [hcircles.malformed]
      exact .inr ⟨rfl, _, _, rfl, hplaces⟩

/-- Every move of a literal or of the variable keeps the accounts. -/
theorem Move.laps (hcircles : s.Circles v text k inner) (hnode : node.RefersOnlyTo v)
    (h : Move s level tally node events items after) :
    Laps s v text k inner [⟨level, node⟩] tally events items after := by
  obtain ⟨written, rfl, rfl, rfl, rfl⟩ | ⟨rfl, key, placed, rfl, hplaces⟩ :=
    h.of_circles hcircles hnode
  · exact laps_of_silent rfl rfl rfl rfl rfl rfl rfl rfl
  · have huse : Laps s v text k inner [⟨level, .variable v⟩] tally [.use key, .draw key]
        [⟨level, .variable v⟩] (tally.use (.variable v)) :=
      laps_of_silent rfl rfl rfl rfl rfl rfl rfl (zero_add _)
    exact huse.trans (hplaces.laps hcircles)

/-- And it leaves literals and references to the variable. -/
theorem Move.refersOnlyTo (hcircles : s.Circles v text k inner) (hnode : node.RefersOnlyTo v)
    (h : Move s level tally node events items after) :
    ∀ item ∈ items, item.node.RefersOnlyTo v := by
  obtain ⟨written, rfl, rfl, rfl, rfl⟩ | ⟨rfl, key, placed, rfl, hplaces⟩ :=
    h.of_circles hcircles hnode
  · exact fun _ hitem => nomatch hitem
  · cases hplaces with
    | plain | invalid | closed | closedAgain => exact fun _ hitem => nomatch hitem
    | opened _ _ _ hread =>
      rw [hcircles.read] at hread
      cases hread
      exact List.forall_mem_map.2 hcircles.nodes

/-- All moves together keep the accounts. -/
theorem Moves.laps {start finish : Stage} (hcircles : s.Circles v text k inner)
    (h : Moves s start events finish) (hstart : ∀ item ∈ start.agenda, item.node.RefersOnlyTo v) :
    Laps s v text k inner start.agenda start.tally events finish.agenda finish.tally := by
  induction h with
  | refl => exact laps_of_silent rfl rfl rfl rfl rfl rfl rfl (zero_add _)
  | @move level node agenda items tally after events later finish hmove _ ih =>
    obtain ⟨hnode, hagenda⟩ := List.forall_mem_cons.1 hstart
    have hfirst := (hmove.laps hcircles hnode).before agenda
    exact hfirst.trans (ih (List.forall_mem_append.2 ⟨hmove.refersOnlyTo hcircles hnode, hagenda⟩))

end

/-! ## 4. Variations -/

/-- A template that is one reference to a variable whose only value refers to the variable itself `k`
times.  Its value is opened as often as it is due under the limits; all references beyond that get
its text as it is; and the variable is reported once. -/
theorem variation_of_circle (r : Request) (limits : Limits) (seed : String) (index : Nat)
    {v text : String} {weight : Float} {e : Entry} {inner : Template} {k : Nat}
    (htemplate : r.template = ⟨[.variable v]⟩) (hget : r.catalog.get? v = some e)
    (hvalues : e.values = [⟨text, weight, none⟩]) (hread : Template.read text = .ok inner)
    (hnodes : ∀ node ∈ inner.nodes, node.RefersOnlyTo v)
    (hcount : (references inner.nodes).length = k) (hpos : 0 < k) :
    (r.trace limits seed index).openings = limits.turns k ∧
    (r.trace limits seed index).closings = 1 + limits.turns k * (k - 1) ∧
    (r.trace limits seed index).writings
      = limits.turns k • literals inner.nodes + (1 + limits.turns k * (k - 1)) • {text} ∧
    (r.variation limits seed index).text.length
      = limits.turns k * literalLength inner.nodes
        + (1 + limits.turns k * (k - 1)) * text.length ∧
    (r.variation limits seed index).problems
      = [.maxRecursionExceeded v limits.maxRecursionDepth] := by
  have hcircles : (r.setting limits seed index).Circles v text k inner :=
    { sole_of_get? hget hvalues hread with nodes := hnodes, count := hcount, pos := hpos }
  obtain ⟨finish, hend, hmoves⟩ := exists_moves r limits seed index
  have hagenda : (r.start limits).agenda = [⟨0, .variable v⟩] := by
    rw [Request.start, htemplate]
    rfl
  have hlaps := hmoves.laps hcircles (by simp [hagenda, Node.RefersOnlyTo])
  rw [hend, hagenda] at hlaps
  obtain ⟨hopenings, hclosings, hwritings, hproblems⟩ := hlaps.finished hpos List.not_mem_nil
  have hturns : (r.trace limits seed index).openings = limits.turns k := hopenings
  rw [hturns] at hclosings hwritings
  rw [hclosings] at hwritings
  refine ⟨hturns, hclosings, hwritings, ?_, hproblems⟩
  rw [Request.variation, Trace.length_text, hwritings, literalLength_eq, Multiset.map_add,
    Multiset.sum_add, Multiset.map_nsmul, Multiset.map_nsmul, Multiset.sum_nsmul,
    Multiset.sum_nsmul, Multiset.map_singleton, Multiset.sum_singleton, Nat.nsmul_eq_mul,
    Nat.nsmul_eq_mul]

/-- A variable whose only value refers to it twice. -/
def swarm : Request where
  template := ⟨[.variable "swarm"]⟩
  catalog := Catalog.empty.insertValid
    ⟨"swarm", none, [⟨"a \x7b\x7bswarm\x7d\x7d \x7b\x7bswarm\x7d\x7d", 1, none⟩]⟩ (by decide)
  context := .empty

/-- Of the fifteen values that are due on four levels, five are opened. -/
theorem variation_of_circle_swarm :
    (swarm.trace ⟨4, 100, 5⟩ "seed" 0).openings = 5 ∧
    (swarm.trace ⟨4, 100, 5⟩ "seed" 0).closings = 6 ∧
    (swarm.trace ⟨4, 100, 5⟩ "seed" 0).writings
      = 5 • ↑["a ", " "] + 6 • {"a \x7b\x7bswarm\x7d\x7d \x7b\x7bswarm\x7d\x7d"} ∧
    (swarm.variation ⟨4, 100, 5⟩ "seed" 0).text.length = 141 ∧
    (swarm.variation ⟨4, 100, 5⟩ "seed" 0).problems = [.maxRecursionExceeded "swarm" 4] := by
  have hread : Template.read "a \x7b\x7bswarm\x7d\x7d \x7b\x7bswarm\x7d\x7d"
      = .ok ⟨[.literal "a ", .variable "swarm", .literal " ", .variable "swarm"]⟩ := by
        decide +kernel
  have hnodes : ∀ node ∈ [.literal "a ", .variable "swarm", .literal " ", .variable "swarm"],
      Node.RefersOnlyTo "swarm" node := by
    simp [Node.RefersOnlyTo, Node.isLiteral]
  exact variation_of_circle swarm ⟨4, 100, 5⟩ "seed" 0 rfl rfl rfl hread hnodes rfl Nat.two_pos

end SeededText
