import Mathlib.Control.Monad.Basic
import SeededText.Proofs.Template.Faults

/-!
# The rounds of the reading

The reading goes through a text in rounds.  A round takes the piece that stands where the reader is: a
run of plain text, a mark that opens no tag, or a tag.  `Reader.Reached` has every state that a reader
comes to between two rounds, from the beginning of the text on.

The steps of the reader rely on more than they ask for.  An option that is closed joins the group under
it, if there is one, and a group that is closed leaves behind whatever nodes its frame holds.  That
nothing is lost by this is a matter of the stack: an option stands on a group, a group holds no nodes of
its own, and nothing but options stands on it (`Stacked`).  The reader never looks at this, and it is
true in every state that is reached.

No round is idle: each takes a character at least.  So the rounds come to an end, and what they come to
is the result of the reading (`Reader.Ends`).
-/

namespace SeededText

open Text

/-! ## 1. Rounds -/

/-- A round: the reader takes the piece that stands where it is. -/
def Reader.Round (cs : List Char) (r r' : Reader) : Prop :=
  ∃ p rest, scan (cs.drop r.offset) = .piece p rest ∧ r.take p = .ok r'

/-- So many rounds bring the reader from the beginning of the text to this state. -/
inductive Reader.Reached (cs : List Char) : (rounds : Nat) → Reader → Prop where
  | start : Reached cs 0 .start
  | round {n : Nat} {r r' : Reader} : Reached cs n r → r.Round cs r' → Reached cs (n + 1) r'

/-- The rounds end in this state, and the reading with this result: the text is over, a tag has no end,
or the next piece is refused. -/
inductive Reader.Ends (cs : List Char) (r : Reader) : Except TemplateFault (List Node) → Prop where
  | over : cs.drop r.offset = [] → Ends cs r r.finish
  | endless {cause : TemplateCause} : scan (cs.drop r.offset) = .fault cause →
      Ends cs r (.error ⟨r.offset, cause⟩)
  | refused {p : Piece} {rest : List Char} {fault : TemplateFault} :
      scan (cs.drop r.offset) = .piece p rest → r.take p = .error fault → Ends cs r (.error fault)

section

variable {cs rest : List Char} {r r' : Reader} {p : Piece} {n : Nat}

theorem offset_take (h : r.take p = .ok r') : r'.offset = r.offset + p.source.length := by
  cases p with
  | plain text =>
    cases h
    rfl
  | tag source tag =>
    obtain ⟨-, f, g, hflush, happly, rfl⟩ := take_tag_eq_ok.1 h
    rw [← offset_flush hflush, ← offset_apply happly]
    rfl

/-- Behind a round stands what the scan has left. -/
theorem drop_offset_of_take (hscan : scan (cs.drop r.offset) = .piece p rest)
    (htake : r.take p = .ok r') : cs.drop r'.offset = rest := by
  rw [offset_take htake, ← List.drop_drop, ← source_scan hscan, List.drop_left]

theorem Reader.Round.offset_lt (h : r.Round cs r') : r.offset < r'.offset := by
  obtain ⟨p, rest, hscan, htake⟩ := h
  have hpos := List.length_pos_iff.2 (source_scan_ne_nil hscan)
  rw [offset_take htake]
  omega

theorem Reader.Round.offset_le (h : r.Round cs r') : r'.offset ≤ cs.length := by
  obtain ⟨p, rest, hscan, htake⟩ := h
  have hpos := List.length_pos_iff.2 (source_scan_ne_nil hscan)
  have hlength := congrArg List.length (source_scan hscan)
  rw [List.length_append, List.length_drop] at hlength
  rw [offset_take htake]
  omega

/-- The rounds are counted by the characters at least. -/
theorem Reader.Reached.le_offset (h : Reader.Reached cs n r) : n ≤ r.offset := by
  induction h with
  | start => exact Nat.le_refl 0
  | round _ hround ih =>
    have hlt := hround.offset_lt
    omega

theorem Reader.Reached.offset_le (h : Reader.Reached cs n r) : r.offset ≤ cs.length := by
  cases h with
  | start => exact Nat.zero_le _
  | round _ hround => exact hround.offset_le

/-! ## 2. What the rounds have taken -/

/-- The rounds have taken the pieces of the text in front of the reader, one after another. -/
theorem Reader.Reached.exists_taken (h : Reader.Reached cs n r) :
    ∃ ps, ps.length = n ∧ ps.foldlM Reader.take .start = .ok r ∧ sources ps = cs.take r.offset ∧
      pieces cs = ⟨ps ++ (pieces (cs.drop r.offset)).items, (pieces (cs.drop r.offset)).fault⟩ := by
  induction h with
  | start => exact ⟨[], rfl, rfl, rfl, rfl⟩
  | @round n r r' _ hround ih =>
    obtain ⟨ps, hlength, hrun, htaken, hpieces⟩ := ih
    obtain ⟨p, rest, hscan, htake⟩ := hround
    refine ⟨ps ++ [p], ?_, ?_, ?_, ?_⟩
    · rw [List.length_append, hlength, List.length_singleton]
    · rw [List.foldlM_append, hrun]
      exact foldlM_cons_eq_ok_iff.2 ⟨r', htake, rfl⟩
    · rw [offset_take htake, List.take_add, ← source_scan hscan, List.take_left, sources_append,
        htaken, sources_cons, sources_nil, List.append_nil]
    · rw [hpieces, pieces_of_piece hscan, drop_offset_of_take hscan htake, List.append_assoc]
      rfl

/-- A reader that takes the next pieces of the text goes through so many rounds. -/
theorem Reader.Reached.run {before after : List Piece} (h : Reader.Reached cs n r)
    (hitems : (pieces (cs.drop r.offset)).items = before ++ after)
    (hrun : before.foldlM Reader.take r = .ok r') : Reader.Reached cs (n + before.length) r' := by
  induction before generalizing n r with
  | nil =>
    cases hrun
    exact h
  | cons p before ih =>
    obtain ⟨next, htake, hrest⟩ := foldlM_cons_eq_ok_iff.1 hrun
    cases hscan : scan (cs.drop r.offset) with
    | done =>
      rw [eq_nil_of_scan hscan, pieces_nil] at hitems
      cases hitems
    | fault cause =>
      rw [pieces_of_fault hscan] at hitems
      cases hitems
    | piece q rest =>
      rw [pieces_of_piece hscan, List.cons_append, List.cons.injEq] at hitems
      obtain ⟨rfl, hitems⟩ := hitems
      rw [← drop_offset_of_take hscan htake] at hitems
      have hreached := ih (h.round ⟨q, rest, hscan, htake⟩) hitems hrest
      rwa [Nat.add_right_comm, Nat.add_assoc] at hreached

/-- The states between two rounds are those in which the fold over the pieces of the text goes on. -/
theorem reached_iff : Reader.Reached cs n r ↔
    ∃ before after, (pieces cs).items = before ++ after ∧ before.length = n ∧
      before.foldlM Reader.take .start = .ok r := by
  constructor
  · intro h
    obtain ⟨before, hlength, hrun, -, hpieces⟩ := h.exists_taken
    exact ⟨before, _, by rw [hpieces], hlength, hrun⟩
  · rintro ⟨before, after, hitems, rfl, hrun⟩
    have hreached := Reader.Reached.start.run hitems hrun
    rwa [Nat.zero_add] at hreached

/-- What the reader holds is what the text in front of it derives. -/
theorem Reader.Reached.holds (h : Reader.Reached cs n r) :
    ∃ ps, r.Holds ps ∧ sources ps = cs.take r.offset := by
  obtain ⟨ps, -, hrun, htaken, hpieces⟩ := h.exists_taken
  have hne : ∀ p ∈ ps, p.source ≠ [] := by
    intro p hp
    have hitems : p ∈ (pieces cs).items := by
      rw [hpieces]
      exact List.mem_append_left _ hp
    exact source_ne_nil_of_mem_pieces hitems
  rw [← foldlM_joinPlain _ hne] at hrun
  exact ⟨_, holds_of_run (separated_joinPlain hne) hrun, (sources_joinPlain ps).trans htaken⟩

end

/-! ## 3. The stack -/

/-- The block is an options group. -/
def Frame.isGroup (f : Frame) : Bool :=
  match f.block with
  | .options .. => true
  | .conditional .. | .optionBody .. => false

/-- Options stand on groups, and groups hold options and nothing else. -/
structure Stacked (frames : List Frame) : Prop where
  option_on_group : ∀ inner f outer, frames = inner ++ f :: outer → f.isOption = true →
    ∃ g rest, outer = g :: rest ∧ g.isGroup = true
  group_empty : ∀ f ∈ frames, f.isGroup = true → f.nodes = []
  above_group : ∀ inner f g outer, frames = inner ++ f :: g :: outer → g.isGroup = true →
    f.isGroup = false ∧ f.isConditional = false

/-- An option is closed: it joins the group that it stands on, behind the options closed before. -/
inductive ClosesOption : List Node × List Frame → List Node × List Frame → Prop where
  | intro (root nodes : List Node) (title : String) (condition : Option String)
      (openedAt index groupAt : Nat) (closed : List (Choice Node)) (outer : List Frame) :
      ClosesOption
        (root, ⟨.optionBody title condition, nodes, openedAt⟩ ::
          ⟨.options index closed, [], groupAt⟩ :: outer)
        (root, ⟨.options index (⟨title, condition, nodes.reverse⟩ :: closed), [], groupAt⟩ :: outer)

/-- A group is closed: all that its frame holds becomes a node of the block around it. -/
inductive ClosesGroup : List Node × List Frame → List Node × List Frame → Prop where
  | intro (root : List Node) (index openedAt : Nat) (closed : List (Choice Node))
      (outer : List Frame) : closed ≠ [] →
      ClosesGroup (root, ⟨.options index closed, [], openedAt⟩ :: outer)
        (put (.optionGroup index closed.reverse) (root, outer))

section

variable {ps : List Piece} {root : List Node} {frames inner outer : List Frame} {f : Frame}
  {m n : Nat}

theorem insideGroup_eq_true_iff :
    insideGroup frames = true ↔ ∃ g outer, frames = g :: outer ∧ g.isGroup = true := by
  cases frames with
  | nil => simp [insideGroup]
  | cons f frames =>
    obtain ⟨block, nodes, openedAt⟩ := f
    cases block <;> simp [insideGroup, Frame.isGroup]

theorem not_group_of_isOption (h : f.isOption = true) : f.isGroup = false := by
  obtain ⟨block, nodes, openedAt⟩ := f
  cases block with
  | optionBody => rfl
  | conditional | options => cases h

/-- The outer frames of a stack were read before the inner ones were opened. -/
theorem Reads.of_append (h : Reads ps root (inner ++ outer) n) : ∃ qs m, Reads qs root outer m := by
  induction inner generalizing ps n with
  | nil => exact ⟨ps, n, h⟩
  | cons f inner ih =>
    cases h with
    | frame hr _ _ _ => exact ih hr

theorem Reads.fits (h : Reads ps root (f :: outer) n) : f.isOption = insideGroup outer := by
  cases h with
  | frame _ _ hfits _ => exact hfits

theorem Frame.Opens.nodes_eq_nil (h : f.Opens m ps n) (hgroup : f.isGroup = true) :
    f.nodes = [] := by
  cases h with
  | options => rfl
  | thenBranch | elseBranch | optionBody => cases hgroup

theorem Reads.nodes_eq_nil (h : Reads ps root (f :: outer) n) (hgroup : f.isGroup = true) :
    f.nodes = [] := by
  cases h with
  | frame _ hopens _ _ => exact hopens.nodes_eq_nil hgroup

theorem Reads.stacked (h : Reads ps root frames n) : Stacked frames where
  option_on_group inner f outer hframes hoption := by
    subst hframes
    obtain ⟨qs, m, hreads⟩ := h.of_append
    rw [hreads.fits] at hoption
    exact insideGroup_eq_true_iff.1 hoption
  group_empty f hf hgroup := by
    obtain ⟨inner, outer, rfl⟩ := List.append_of_mem hf
    obtain ⟨qs, m, hreads⟩ := h.of_append
    exact hreads.nodes_eq_nil hgroup
  above_group inner f g outer hframes hgroup := by
    subst hframes
    obtain ⟨qs, m, hreads⟩ := h.of_append
    have hoption : f.isOption = true :=
      hreads.fits.trans (insideGroup_eq_true_iff.2 ⟨g, outer, rfl, hgroup⟩)
    exact ⟨not_group_of_isOption hoption, isConditional_of_isOption hoption⟩

end

/-! ## 4. Every state between two rounds -/

/-- What the steps of the reader rely on: the frames are stacked as they should be, the pending text is
what stands in the text between its beginning and the reader, and the reader is not past the end. -/
structure Reader.InOrder (cs : List Char) (r : Reader) : Prop where
  stacked : Stacked r.stack
  pending : r.pending = [] ∨
    r.pendingAt < r.offset ∧ r.pending.reverse = (cs.take r.offset).drop r.pendingAt
  offset_le : r.offset ≤ cs.length

section

variable {cs : List Char} {ps : List Piece} {r r' f g : Reader} {source : List Char} {n : Nat}

theorem Reader.Holds.stacked (h : r.Holds ps) : Stacked r.stack := by
  obtain ⟨-, qs, hreads, -, -⟩ := h
  exact hreads.stacked

/-- The pending text is the end of the text that is taken. -/
theorem Reader.Holds.pending_eq (h : r.Holds ps) : r.pending = [] ∨
    r.pendingAt < r.offset ∧ r.pending.reverse = (sources ps).drop r.pendingAt := by
  obtain ⟨hoffset, qs, -, rfl, hat⟩ := h
  by_cases hpending : r.pending = []
  · exact .inl hpending
  · have hsources : sources (qs ++ pendingPieces r.pending) = sources qs ++ r.pending.reverse := by
      simp [pendingPieces, hpending, Piece.source]
    have hpos := List.length_pos_iff.2 hpending
    rw [hsources, List.length_append, List.length_reverse] at hoffset
    rw [hsources, hat hpending, List.drop_left]
    exact .inr ⟨by omega, rfl⟩

theorem Reader.Reached.inOrder (h : Reader.Reached cs n r) : r.InOrder cs := by
  obtain ⟨ps, hholds, htaken⟩ := h.holds
  refine ⟨hholds.stacked, ?_, h.offset_le⟩
  rw [← htaken]
  exact hholds.pending_eq

/-- Placing the pending text leaves the frames stacked. -/
theorem Reader.Reached.stacked_flush (h : Reader.Reached cs n r) (hflush : r.flush = .ok f) :
    Stacked f.stack := by
  obtain ⟨ps, hholds, -⟩ := h.holds
  exact (hholds.flush hflush).1.stacked

/-- Where frames are stacked an option that is closed has its group under it. -/
theorem Stacked.closeOption (h : Stacked f.stack) (hclose : f.closeOption = .ok g) :
    ClosesOption f.tree g.tree := by
  obtain ⟨offset, pending, pendingAt, root, stack, groups⟩ := f
  simp only [Reader.closeOption] at hclose
  split at hclose
  · next title condition nodes openedAt frames =>
    cases hclose
    obtain ⟨⟨block, others, groupAt⟩, outer, rfl, hgroup⟩ := h.option_on_group [] _ frames rfl rfl
    have hempty : others = [] := h.group_empty ⟨block, others, groupAt⟩ (by simp) hgroup
    subst hempty
    cases block with
    | options index closed =>
      exact .intro root nodes title condition openedAt index groupAt closed outer
    | conditional | optionBody => cases hgroup
  · cases hclose
  · cases hclose

/-- Where frames are stacked a group that is closed has no nodes to leave behind. -/
theorem Stacked.closeOptions (h : Stacked f.stack) (hclose : f.closeOptions = .ok g) :
    ClosesGroup f.tree g.tree := by
  obtain ⟨offset, pending, pendingAt, root, stack, groups⟩ := f
  simp only [Reader.closeOptions] at hclose
  split at hclose
  · next index closed nodes openedAt outer =>
    split at hclose
    · cases hclose
    · next hclosed =>
      cases hclose
      have hempty : nodes = [] :=
        h.group_empty ⟨.options index closed, nodes, openedAt⟩ (by simp) rfl
      subst hempty
      rw [tree_place]
      exact .intro root index openedAt closed outer (by simpa using hclosed)
  · cases hclose
  · cases hclose
  · cases hclose

theorem Reader.Reached.closesOption (h : Reader.Reached cs n r)
    (htake : r.take (.tag source .closeOption) = .ok r') :
    ∃ f, r.flush = .ok f ∧ ClosesOption f.tree r'.tree := by
  obtain ⟨-, f, g, hflush, hclose, rfl⟩ := take_tag_eq_ok.1 htake
  have hcloses := (h.stacked_flush hflush).closeOption hclose
  exact ⟨f, hflush, hcloses⟩

theorem Reader.Reached.closesGroup (h : Reader.Reached cs n r)
    (htake : r.take (.tag source .closeOptions) = .ok r') :
    ∃ f, r.flush = .ok f ∧ ClosesGroup f.tree r'.tree := by
  obtain ⟨-, f, g, hflush, hclose, rfl⟩ := take_tag_eq_ok.1 htake
  have hcloses := (h.stacked_flush hflush).closeOptions hclose
  exact ⟨f, hflush, hcloses⟩

/-! ## 5. The end of the rounds -/

/-- What is left of the reading is to take the pieces of the text that is left. -/
theorem readTemplate_of_reached (h : Reader.Reached cs n r) : readTemplate cs =
    ((pieces (cs.drop r.offset)).items.foldlM Reader.take r >>=
      fun last => last.stop (pieces (cs.drop r.offset)).fault) := by
  obtain ⟨ps, -, hrun, -, hpieces⟩ := h.exists_taken
  rw [readTemplate_eq, hpieces, List.foldlM_append, hrun]
  rfl

/-- From every state that is reached the rounds go on to the result of the reading. -/
theorem Reader.Reached.exists_ends (h : Reader.Reached cs n r) :
    ∃ m last, n ≤ m ∧ Reader.Reached cs m last ∧ last.Ends cs (readTemplate cs) := by
  -- a round that is not the last one leaves less text
  induction hleft : cs.length - r.offset using Nat.strongRecOn generalizing n r with
  | ind left ih =>
    have hresult := readTemplate_of_reached h
    cases hscan : scan (cs.drop r.offset) with
    | done =>
      have hnil := eq_nil_of_scan hscan
      rw [hnil, pieces_nil] at hresult
      exact ⟨n, r, Nat.le_refl n, h, hresult ▸ .over hnil⟩
    | fault cause =>
      rw [pieces_of_fault hscan] at hresult
      exact ⟨n, r, Nat.le_refl n, h, hresult ▸ .endless hscan⟩
    | piece p rest =>
      cases htake : r.take p with
      | error fault =>
        rw [pieces_of_piece hscan, List.foldlM_cons, htake] at hresult
        exact ⟨n, r, Nat.le_refl n, h, hresult ▸ .refused hscan htake⟩
      | ok next =>
        have hround : r.Round cs next := ⟨p, rest, hscan, htake⟩
        have hlt := hround.offset_lt
        have hle := hround.offset_le
        obtain ⟨m, last, hm, hlast⟩ := ih _ (by omega) (h.round hround) rfl
        exact ⟨m, last, Nat.le_of_succ_le hm, hlast⟩

end

/-- In every state that the rounds come to the frames are stacked, the pending text is the text from
its beginning to the reader, and the next round takes the reader further, but not past the end.  So an
option that is closed is in its group, a group that is closed is in the block around it, options and
all, and the rounds come to an end. -/
theorem Reader.Reached.discipline {cs : List Char} {n : Nat} {r : Reader}
    (h : Reader.Reached cs n r) :
    r.InOrder cs ∧
    (∀ r', r.Round cs r' → r.offset < r'.offset ∧ r'.offset ≤ cs.length) ∧
    (∀ source r', r.take (.tag source .closeOption) = .ok r' →
      ∃ f, r.flush = .ok f ∧ ClosesOption f.tree r'.tree) ∧
    (∀ source r', r.take (.tag source .closeOptions) = .ok r' →
      ∃ f, r.flush = .ok f ∧ ClosesGroup f.tree r'.tree) ∧
    ∃ m last, n ≤ m ∧ m ≤ cs.length ∧ Reader.Reached cs m last ∧ last.Ends cs (readTemplate cs) := by
  refine ⟨h.inOrder, fun r' hround => ⟨hround.offset_lt, hround.offset_le⟩,
    fun source r' htake => h.closesOption htake, fun source r' htake => h.closesGroup htake, ?_⟩
  obtain ⟨m, last, hm, hlast, hends⟩ := h.exists_ends
  exact ⟨m, last, hm, Nat.le_trans hlast.le_offset hlast.offset_le, hlast, hends⟩

/-- A group with one option, in which stands a mark that opens no tag. -/
def menu : String :=
  "[[options]]\n[[option title=\"a\"]][[x[[/option]][[/options]]"

/-- The reader in front of the end of that option. -/
def Reader.inMenu : Reader where
  offset := 35
  pending := ['x', '[', '[']
  pendingAt := 32
  root := []
  stack := [⟨.optionBody "a" none, [], 12⟩, ⟨.options 0 [], [], 0⟩]
  groups := 1

/-- The reader behind the end of the option. -/
def Reader.behindOption : Reader where
  offset := 46
  pending := []
  pendingAt := 32
  root := []
  stack := [⟨.options 0 [⟨"a", none, [.literal "[[x"]⟩], [], 0⟩]
  groups := 1

theorem Reader.Reached.discipline_menu :
    Reader.Reached menu.toList 5 .inMenu ∧ Reader.inMenu.InOrder menu.toList ∧
    (∃ f, Reader.inMenu.flush = .ok f ∧ ClosesOption f.tree Reader.behindOption.tree) ∧
    ∃ m last, 5 ≤ m ∧ Reader.Reached menu.toList m last ∧
      last.Ends menu.toList (.ok [.optionGroup 0 [⟨"a", none, [.literal "[[x"]⟩]]) := by
  have hrun : ((pieces menu.toList).items.take 5).foldlM Reader.take .start = .ok .inMenu := by
    decide +kernel
  have hlength : ((pieces menu.toList).items.take 5).length = 5 := by decide +kernel
  have hreached : Reader.Reached menu.toList 5 .inMenu :=
    reached_iff.2 ⟨_, _, (List.take_append_drop 5 _).symm, hlength, hrun⟩
  have hread : readTemplate menu.toList
      = .ok [.optionGroup 0 [⟨"a", none, [.literal "[[x"]⟩]] := by decide +kernel
  obtain ⟨horder, -, hoption, -, m, last, hm, -, hlast, hends⟩ := Reader.Reached.discipline hreached
  have hbehind : Reader.inMenu.take (.tag "[[/option]]".toList .closeOption) = .ok .behindOption := by
    decide +kernel
  obtain ⟨f, hflush, hcloses⟩ := hoption _ _ hbehind
  rw [hread] at hends
  exact ⟨hreached, horder, ⟨f, hflush, hcloses⟩, m, last, hm, hlast, hends⟩

end SeededText
