import Mathlib.Control.Monad.Basic
import SeededText.Proofs.Template.Derivation

/-!
# The numbers of option groups

A group gets its number when its opening tag is met, and it joins the nodes around it when its
closing tag is met, after everything that stands inside it.  A visit comes to an outer node before the
inner ones, so the order in which groups are visited is that of their opening tags and not that in
which they were closed: the numbers count up from nought, without a gap.

The derivations of the grammar carry the two ends of that count (`Content.next`), so the proof goes
along a derivation and never looks at the reader's stack.
-/

namespace SeededText

/-! ## 1. Numbers and their count -/

/-- The number of a node that is an option group. -/
def Node.groupNumber? : Node → Option Nat
  | .optionGroup index _ => some index
  | .literal _ | .variable _ | .conditional .. => none

/-- The numbers of the groups that are visited, in the order of the visit. -/
def groupNumbers (visited : List Node) : List Nat :=
  visited.filterMap Node.groupNumber?

mutual

/-- How many option groups a node is and holds, at any depth. -/
def Node.groupCount : Node → Nat
  | .literal _ | .variable _ => 0
  | .conditional _ thenBranch none => Node.groupCountList thenBranch
  | .conditional _ thenBranch (some elseBranch) =>
    Node.groupCountList thenBranch + Node.groupCountList elseBranch
  | .optionGroup _ options => 1 + Node.groupCountChoices options

def Node.groupCountList : List Node → Nat
  | [] => 0
  | node :: nodes => node.groupCount + Node.groupCountList nodes

def Node.groupCountChoices : List (Choice Node) → Nat
  | [] => 0
  | ⟨_, _, body⟩ :: options => Node.groupCountList body + Node.groupCountChoices options

end

/-- How many option groups the template holds, at any depth. -/
def Template.groupCount (template : Template) : Nat :=
  Node.groupCountList template.nodes

theorem groupNumbers_append (visited more : List Node) :
    groupNumbers (visited ++ more) = groupNumbers visited ++ groupNumbers more :=
  List.filterMap_append

/-! ## 2. Derivations count groups -/

mutual

/-- The number of the next group grows by the groups that are derived. -/
theorem Content.next {m n : Nat} {ps : List Piece} {nodes : List Node} :
    Content m ps nodes n → n = m + Node.groupCountList nodes
  | .nil _ => rfl
  | .text _ h => by
    have hn := h.next
    simp only [Node.groupCountList, Node.groupCount]
    omega
  | .reference _ _ h => by
    have hn := h.next
    simp only [Node.groupCountList, Node.groupCount]
    omega
  | .ifThen _ _ _ hthen h => by
    have hk := hthen.next
    have hn := h.next
    simp only [Node.groupCountList, Node.groupCount]
    omega
  | .ifElse _ _ _ _ hthen helse h => by
    have hk := hthen.next
    have hl := helse.next
    have hn := h.next
    simp only [Node.groupCountList, Node.groupCount]
    omega
  | .group _ _ hoptions _ h => by
    have hk := hoptions.next
    have hn := h.next
    simp only [Node.groupCountList, Node.groupCount]
    omega

theorem Choices.next {m n : Nat} {ps : List Piece} {options : List (Choice Node)} :
    Choices m ps options n → n = m + Node.groupCountChoices options
  | .nil _ => rfl
  | .gap _ h => h.next
  | .option _ _ _ hbody h => by
    have hk := hbody.next
    have hn := h.next
    simp only [Node.groupCountChoices]
    omega

end

/-! ## 3. Visits meet the numbers in order -/

mutual

/-- The groups among derived nodes are visited by their numbers, from the first on. -/
theorem Content.groupNumbers {m n : Nat} {ps : List Piece} {nodes : List Node} :
    Content m ps nodes n →
      groupNumbers (Node.visitsList nodes) = List.range' m (Node.groupCountList nodes)
  | .nil _ => rfl
  | .text _ h => by
    rw [Node.visitsList, groupNumbers_append, h.groupNumbers, Node.groupCountList, Node.groupCount,
      Nat.zero_add]
    rfl
  | .reference _ _ h => by
    rw [Node.visitsList, groupNumbers_append, h.groupNumbers, Node.groupCountList, Node.groupCount,
      Nat.zero_add]
    rfl
  | .ifThen _ _ _ hthen h => by
    have hnext := h.groupNumbers
    rw [hthen.next] at hnext
    rw [Node.visitsList, groupNumbers_append, hnext, Node.groupCountList, Node.groupCount,
      ← List.range'_append_1, ← hthen.groupNumbers]
    rfl
  | .ifElse _ _ _ _ hthen helse h => by
    have hturn := helse.groupNumbers
    have hnext := h.groupNumbers
    rw [hthen.next] at hturn
    rw [helse.next, hthen.next, Nat.add_assoc] at hnext
    rw [Node.visitsList, groupNumbers_append, hnext, Node.groupCountList, Node.groupCount,
      ← List.range'_append_1, ← List.range'_append_1, ← hturn, ← hthen.groupNumbers,
      ← groupNumbers_append]
    rfl
  | .group _ _ hoptions _ h => by
    have hinside := hoptions.groupNumbers
    have hnext := h.groupNumbers
    rw [hoptions.next, Nat.add_assoc] at hnext
    rw [Node.visitsList, groupNumbers_append, hnext, Node.groupCountList, Node.groupCount,
      ← List.range'_append_1, ← List.range'_append_1, ← hinside]
    rfl

theorem Choices.groupNumbers {m n : Nat} {ps : List Piece} {options : List (Choice Node)} :
    Choices m ps options n →
      groupNumbers (Node.visitsChoices options) = List.range' m (Node.groupCountChoices options)
  | .nil _ => rfl
  | .gap _ h => h.groupNumbers
  | .option _ _ _ hbody h => by
    have hnext := h.groupNumbers
    rw [hbody.next] at hnext
    rw [Node.visitsChoices, groupNumbers_append, hbody.groupNumbers, hnext, Node.groupCountChoices,
      List.range'_append_1]

end

/-- The groups of a template that was read are numbered from nought in the order in which they are
visited, at any depth. -/
theorem groupNumbers_of_read {text : String} {template : Template}
    (hread : Template.read text = .ok template) :
    groupNumbers template.visits = List.range template.groupCount := by
  obtain ⟨ps, n, -, hcontent⟩ := readTemplate_eq_ok_iff.1 (read_eq_ok.1 hread)
  rw [Template.visits, hcontent.groupNumbers, List.range_eq_range', Template.groupCount]

/-- A group inside an option of another, which is closed later, and one in the branch behind them. -/
def nest : String :=
  "[[options]][[option title=\"a\"]][[options]][[option title=\"b\"]][[/option]][[/options]]"
    ++ "[[/option]][[/options]]\x7b\x7b#if x\x7d\x7d\x7b\x7belse\x7d\x7d[[options]]"
    ++ "[[option title=\"c\"]][[/option]][[/options]]\x7b\x7b/if\x7d\x7d"

theorem groupNumbers_of_read_nest :
    ∃ template, Template.read nest = .ok template ∧
      template.groupCount = 3 ∧ groupNumbers template.visits = List.range 3 := by
  have hread : Template.read nest = .ok ⟨[.optionGroup 0 [⟨"a", none,
      [.optionGroup 1 [⟨"b", none, []⟩]]⟩],
      .conditional "x" [] (some [.optionGroup 2 [⟨"c", none, []⟩]])]⟩ := by
    -- the parts of the text are short, and so is the way from each to its characters
    refine read_eq_ok.2 ?_
    unfold nest
    rewrite [String.toList_append, String.toList_append]
    decide +kernel
  exact ⟨_, hread, rfl, groupNumbers_of_read hread⟩

end SeededText
