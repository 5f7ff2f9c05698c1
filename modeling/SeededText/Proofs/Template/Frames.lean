import SeededText.Proofs.FirstFault
import SeededText.Proofs.Template.Lexing

/-!
# What the open blocks have read

The reader nests by a stack of frames, and the grammar nests by derivations.  In between stands
`Opens`: the pieces since a frame was opened derive the nodes in it, up to the block's end, which is
still to come.  `Reads` puts a whole stack together, the root and then one frame inside another,
where an option stands directly in a group and nothing else does, and each frame knows the offset of
its opening tag.

Every step keeps this (`Reader.Holds.take`), and where the text ends with no block open it is a
derivation (`Reader.Holds.finish`).  That the reader gives derivations only is no more than that.
-/

namespace SeededText

open Text

/-! ## 1. Frames and stacks -/

/-- The innermost open block is an options group. -/
def insideGroup : List Frame → Bool
  | ⟨.options .., _, _⟩ :: _ => true
  | _ => false

theorem inOptions_eq (r : Reader) : r.inOptions = insideGroup r.stack := rfl

/-- The block is one option of a group. -/
def Frame.isOption (f : Frame) : Bool :=
  match f.block with
  | .optionBody .. => true
  | .conditional .. | .options .. => false

/-- What an open block will become and where it was opened, whatever is in it. -/
def Frame.opening (f : Frame) : Block × Nat :=
  (f.block, f.openedAt)

theorem isConditional_of_isOption {f : Frame} (h : f.isOption = true) : f.isConditional = false := by
  obtain ⟨block, nodes, openedAt⟩ := f
  cases block with
  | optionBody => rfl
  | conditional | options => cases h

/-- The pieces open the frame and derive what is in it so far. -/
inductive Frame.Opens : (m : Nat) → List Piece → Frame → (n : Nat) → Prop where
  | thenBranch {m n : Nat} {ps : List Piece} {nodes : List Node}
      (source condition : List Char) (at' : Nat) :
      Content m ps nodes.reverse n →
        Opens m (.tag source (.openIf condition) :: ps)
          ⟨.conditional (String.ofList condition) none, nodes, at'⟩ n
  | elseBranch {m k n : Nat} {qs ps : List Piece} {thenBranch nodes : List Node}
      (source condition turn : List Char) (at' : Nat) :
      Content m qs thenBranch k → Content k ps nodes.reverse n →
        Opens m (.tag source (.openIf condition) :: qs ++ .tag turn .turnElse :: ps)
          ⟨.conditional (String.ofList condition) (some thenBranch), nodes, at'⟩ n
  | options {m n : Nat} {ps : List Piece} {closed : List (Choice Node)}
      (source : List Char) (at' : Nat) :
      Choices (m + 1) ps closed.reverse n →
        Opens m (.tag source .openOptions :: ps) ⟨.options m closed, [], at'⟩ n
  | optionBody {m n : Nat} {ps : List Piece} {nodes : List Node} {title : String}
      {condition : Option String} {attributes : List Char} (source : List Char) (at' : Nat) :
      readOptionAttributes attributes = .ok (title, condition) → Content m ps nodes.reverse n →
        Opens m (.tag source (.openOption attributes) :: ps)
          ⟨.optionBody title condition, nodes, at'⟩ n

/-- The pieces derive the nodes outside all blocks, open the frames and derive what is in them.
The frames stand from the innermost outwards, and so do the nodes from the last to the first.  A frame
was opened where the pieces that open it begin. -/
inductive Reads : List Piece → List Node → List Frame → (n : Nat) → Prop where
  | root {n : Nat} {ps : List Piece} {nodes : List Node} :
      Content 0 ps nodes.reverse n → Reads ps nodes [] n
  | frame {m n : Nat} {ps qs : List Piece} {root : List Node} {frames : List Frame}
      {frame : Frame} :
      Reads ps root frames m → frame.Opens m qs n → frame.isOption = insideGroup frames →
        frame.openedAt = (sources ps).length → Reads (ps ++ qs) root (frame :: frames) n

/-- More content goes to the end of a block that is no group. -/
theorem Frame.Opens.place {m k n : Nat} {ps qs : List Piece} {f : Frame} {node : Node}
    {frames : List Frame} (h : f.Opens m ps k) (hgroup : insideGroup (f :: frames) = false)
    (hnode : Content k qs [node] n) :
    Frame.Opens m (ps ++ qs) { f with nodes := node :: f.nodes } n := by
  cases h with
  | thenBranch source condition at' hc =>
    exact .thenBranch source condition at' (by simpa using hc.append hnode)
  | elseBranch source condition turn at' hthen hc =>
    rw [List.append_assoc]
    exact .elseBranch source condition turn at' hthen (by simpa using hc.append hnode)
  | options => cases hgroup
  | optionBody source at' hattributes hc =>
    exact .optionBody source at' hattributes (by simpa using hc.append hnode)

theorem Reads.place {m n : Nat} {ps qs : List Piece} {r : Reader} {node : Node}
    (h : Reads ps r.root r.stack m) (hgroup : insideGroup r.stack = false)
    (hnode : Content m qs [node] n) :
    Reads (ps ++ qs) (r.place node).root (r.place node).stack n := by
  obtain ⟨offset, pending, pendingAt, root, stack, groups⟩ := r
  cases stack with
  | nil =>
    cases h with
    | root hc => exact .root (by simpa [Reader.place] using hc.append hnode)
  | cons frame frames =>
    cases h with
    | frame hr hopens hfits hat =>
      rw [List.append_assoc]
      exact .frame hr (hopens.place hgroup hnode) hfits hat

/-- More options go to the end of a group. -/
theorem Reads.addOptions {m n index at' : Nat} {ps qs : List Piece} {root nodes : List Node}
    {closed options : List (Choice Node)} {frames : List Frame}
    (h : Reads ps root (⟨.options index closed, nodes, at'⟩ :: frames) m)
    (hoptions : Choices m qs options n) :
    Reads (ps ++ qs) root (⟨.options index (options.reverse ++ closed), nodes, at'⟩ :: frames)
      n := by
  cases h with
  | frame hr hopens hfits hat =>
    cases hopens with
    | options source at' hclosed =>
      rw [List.append_assoc]
      exact .frame hr (.options source at' (by simpa using hclosed.append hoptions)) hfits hat

/-! ## 2. The reader between two pieces -/

/-- The pending text as a piece, if there is any. -/
def pendingPieces (pending : List Char) : List Piece :=
  if pending.isEmpty then [] else [.plain pending.reverse]

/-- The reader stands behind the pieces.  What it holds is what they derive, the pending text aside, and
that begins behind the others. -/
def Reader.Holds (r : Reader) (ps : List Piece) : Prop :=
  r.offset = (sources ps).length ∧
    ∃ qs, Reads qs r.root r.stack r.groups ∧ ps = qs ++ pendingPieces r.pending ∧
      (r.pending ≠ [] → r.pendingAt = (sources qs).length)

/-- What the reader holds once no text is pending. -/
def Reader.HoldsAll (r : Reader) (ps : List Piece) : Prop :=
  Reads ps r.root r.stack r.groups ∧ r.pending = []

@[simp]
theorem pending_place (r : Reader) (node : Node) : (r.place node).pending = r.pending := by
  unfold Reader.place
  split <;> rfl

@[simp]
theorem groups_place (r : Reader) (node : Node) : (r.place node).groups = r.groups := by
  unfold Reader.place
  split <;> rfl

@[simp]
theorem offset_place (r : Reader) (node : Node) : (r.place node).offset = r.offset := by
  unfold Reader.place
  split <;> rfl

theorem offset_flush {r f : Reader} (h : r.flush = .ok f) : f.offset = r.offset := by
  unfold Reader.flush at h
  split at h
  · cases h
    rfl
  · dsimp only at h
    split at h
    · split at h
      · cases h
        rfl
      · cases h
    · cases h
      exact offset_place _ _

theorem Reader.Holds.flush {r f : Reader} {ps : List Piece} (h : r.Holds ps)
    (hflush : r.flush = .ok f) : f.HoldsAll ps := by
  obtain ⟨-, qs, hreads, rfl, -⟩ := h
  unfold Reader.flush at hflush
  split at hflush
  · next hpending =>
    cases hflush
    exact ⟨by simpa [pendingPieces, hpending] using hreads, List.isEmpty_iff.1 hpending⟩
  · next hpending =>
    have hps : pendingPieces r.pending = [.plain r.pending.reverse] := if_neg hpending
    rw [hps]
    dsimp only at hflush
    split at hflush
    · next hgroup =>
      split at hflush
      · next hblank =>
        -- dropped text is a gap between options, so the innermost frame must be a group
        cases hflush
        rw [inOptions_eq] at hgroup
        obtain ⟨offset, pending, pendingAt, root, stack, groups⟩ := r
        cases stack with
        | nil => cases hgroup
        | cons frame frames =>
          obtain ⟨block, nodes, openedAt⟩ := frame
          cases block with
          | conditional => cases hgroup
          | optionBody => cases hgroup
          | options index closed =>
            exact ⟨hreads.addOptions (.gap hblank (.nil groups)), rfl⟩
      · cases hflush
    · next hgroup =>
      -- anywhere else the text is a literal at the end of the innermost block
      cases hflush
      rw [inOptions_eq, Bool.not_eq_true] at hgroup
      refine ⟨?_, pending_place _ _⟩
      rw [groups_place]
      exact Reads.place (r := { r with pending := [] }) hreads hgroup (.text _ (.nil _))

/-! ## 3. Tags

Each tag does to the stack what the grammar does with it: opening tags push a frame with nothing
in it, closing tags end the derivation in the innermost frame and put its node into the next.  Only an
opening tag needs to know where the reader stands. -/

section

variable {r r' : Reader} {ps : List Piece}

/-- Content goes on only outside the groups themselves. -/
theorem allowContent_bind_eq_ok {next : Reader} :
    (do r.allowContent; return next) = .ok r' ↔ insideGroup r.stack = false ∧ next = r' := by
  cases hgroup : insideGroup r.stack with
  | true => simp [Reader.allowContent, inOptions_eq, hgroup, faultAt, bind, Except.bind]
  | false =>
    simp [Reader.allowContent, inOptions_eq, hgroup, bind, Except.bind, pure, Except.pure]

theorem Reader.HoldsAll.openIf (h : r.HoldsAll ps) (hat : r.offset = (sources ps).length)
    (source condition : List Char)
    (happly : r.apply (.openIf condition) = .ok r') :
    r'.HoldsAll (ps ++ [.tag source (.openIf condition)]) := by
  obtain ⟨hgroup, rfl⟩ := allowContent_bind_eq_ok.1 happly
  exact ⟨.frame h.1 (.thenBranch source condition r.offset (.nil _)) hgroup.symm hat, h.2⟩

theorem Reader.HoldsAll.reference (h : r.HoldsAll ps) (source name : List Char)
    (happly : r.apply (.variable name) = .ok r') :
    r'.HoldsAll (ps ++ [.tag source (.variable name)]) := by
  obtain ⟨hgroup, rfl⟩ := allowContent_bind_eq_ok.1 happly
  refine ⟨?_, by rw [pending_place, h.2]⟩
  rw [groups_place]
  exact h.1.place hgroup (.reference source name (.nil _))

theorem Reader.HoldsAll.openOptions (h : r.HoldsAll ps) (hat : r.offset = (sources ps).length)
    (source : List Char)
    (happly : r.apply .openOptions = .ok r') :
    r'.HoldsAll (ps ++ [.tag source .openOptions]) := by
  obtain ⟨hgroup, rfl⟩ := allowContent_bind_eq_ok.1 happly
  exact ⟨.frame h.1 (.options source r.offset (.nil _)) hgroup.symm hat, h.2⟩

theorem Reader.HoldsAll.openOption (h : r.HoldsAll ps) (hat : r.offset = (sources ps).length)
    (source attributes : List Char)
    (happly : r.apply (.openOption attributes) = .ok r') :
    r'.HoldsAll (ps ++ [.tag source (.openOption attributes)]) := by
  simp only [Reader.apply, Reader.openOption] at happly
  split at happly
  · next hgroup =>
    split at happly
    · cases happly
    · next title condition hattributes =>
      cases happly
      rw [inOptions_eq] at hgroup
      exact ⟨.frame h.1 (.optionBody source r.offset hattributes (.nil _)) hgroup.symm hat, h.2⟩
  · cases happly

theorem Reader.HoldsAll.turnElse (h : r.HoldsAll ps) (source : List Char)
    (happly : r.apply .turnElse = .ok r') : r'.HoldsAll (ps ++ [.tag source .turnElse]) := by
  obtain ⟨hreads, hpending⟩ := h
  simp only [Reader.apply, Reader.turnElse] at happly
  split at happly
  · next condition nodes openedAt frames hstack =>
    cases happly
    rw [hstack] at hreads
    cases hreads with
    | frame hr hopens hfits hat =>
      cases hopens with
      | thenBranch opening condition openedAt hc =>
        refine ⟨?_, hpending⟩
        rw [List.append_assoc]
        exact .frame hr (.elseBranch opening condition source openedAt hc (.nil _)) hfits hat
  · cases happly

theorem Reader.HoldsAll.closeIf (h : r.HoldsAll ps) (source : List Char)
    (happly : r.apply .closeIf = .ok r') : r'.HoldsAll (ps ++ [.tag source .closeIf]) := by
  obtain ⟨hreads, hpending⟩ := h
  simp only [Reader.apply, Reader.closeIf] at happly
  split at happly
  · cases happly
  · next condition thenBranch nodes openedAt frames hstack =>
    cases happly
    rw [hstack] at hreads
    cases hreads with
    | frame hr hopens hfits _ =>
      cases hopens with
      | elseBranch opening condition turn openedAt hthen helse =>
        refine ⟨?_, by rw [pending_place, hpending]⟩
        rw [groups_place, List.append_assoc]
        exact Reads.place (r := { r with stack := frames }) hr hfits.symm
          (by simpa using Content.ifElse opening condition turn source hthen helse (.nil _))
  · next condition nodes openedAt frames hstack =>
    cases happly
    rw [hstack] at hreads
    cases hreads with
    | frame hr hopens hfits _ =>
      cases hopens with
      | thenBranch opening condition openedAt hthen =>
        refine ⟨?_, by rw [pending_place, hpending]⟩
        rw [groups_place, List.append_assoc]
        exact Reads.place (r := { r with stack := frames }) hr hfits.symm
          (.ifThen opening condition source hthen (.nil _))
  · split at happly <;> cases happly

theorem Reader.HoldsAll.closeOption (h : r.HoldsAll ps) (source : List Char)
    (happly : r.apply .closeOption = .ok r') :
    r'.HoldsAll (ps ++ [.tag source .closeOption]) := by
  obtain ⟨hreads, hpending⟩ := h
  simp only [Reader.apply, Reader.closeOption] at happly
  split at happly
  · next title condition nodes openedAt frames hstack =>
    cases happly
    rw [hstack] at hreads
    cases hreads with
    | frame hr hopens hfits _ =>
      cases hopens with
      | optionBody opening openedAt hattributes hbody =>
        refine ⟨?_, hpending⟩
        rw [List.append_assoc]
        -- the frame fits, so the one under it is a group
        match frames, hfits with
        | ⟨.options index closed, others, groupAt⟩ :: frames, _ =>
          exact hr.addOptions (.option opening source hattributes hbody (.nil _))
  · cases happly
  · cases happly

theorem Reader.HoldsAll.closeOptions (h : r.HoldsAll ps) (source : List Char)
    (happly : r.apply .closeOptions = .ok r') :
    r'.HoldsAll (ps ++ [.tag source .closeOptions]) := by
  obtain ⟨hreads, hpending⟩ := h
  simp only [Reader.apply, Reader.closeOptions] at happly
  split at happly
  · next index closed nodes openedAt frames hstack =>
    split at happly
    · cases happly
    · next hclosed =>
      cases happly
      rw [hstack] at hreads
      cases hreads with
      | frame hr hopens hfits _ =>
        cases hopens with
        | options opening openedAt hoptions =>
          -- the guard against an empty group is the grammar's side condition
          have hne : closed.reverse ≠ [] := by simpa using hclosed
          refine ⟨?_, by rw [pending_place, hpending]⟩
          rw [groups_place, List.append_assoc]
          exact Reads.place (r := { r with stack := frames }) hr hfits.symm
            (.group opening source hoptions hne (.nil _))
  · cases happly
  · cases happly
  · cases happly

/-- The characters of a tag are counted when the tag is taken, not by what it does. -/
theorem offset_apply {tag : Tag} (happly : r.apply tag = .ok r') : r'.offset = r.offset := by
  cases tag with
  | openIf => obtain ⟨-, rfl⟩ := allowContent_bind_eq_ok.1 happly; rfl
  | «variable» => obtain ⟨-, rfl⟩ := allowContent_bind_eq_ok.1 happly; exact offset_place _ _
  | openOptions => obtain ⟨-, rfl⟩ := allowContent_bind_eq_ok.1 happly; rfl
  | turnElse =>
    simp only [Reader.apply, Reader.turnElse] at happly
    split at happly <;> cases happly
    rfl
  | closeIf =>
    simp only [Reader.apply, Reader.closeIf] at happly
    split at happly
    · cases happly
    · cases happly; exact offset_place _ _
    · cases happly; exact offset_place _ _
    · split at happly <;> cases happly
  | openOption =>
    simp only [Reader.apply, Reader.openOption] at happly
    split at happly
    · split at happly <;> cases happly
      rfl
    · cases happly
  | closeOption =>
    simp only [Reader.apply, Reader.closeOption] at happly
    split at happly <;> cases happly
    rfl
  | closeOptions =>
    simp only [Reader.apply, Reader.closeOptions] at happly
    split at happly
    · split at happly <;> cases happly
      exact offset_place _ _
    · cases happly
    · cases happly
    · cases happly
  | bareOption => cases happly

theorem Reader.HoldsAll.apply (h : r.HoldsAll ps) (hat : r.offset = (sources ps).length)
    (source : List Char) {tag : Tag} (happly : r.apply tag = .ok r') :
    r'.HoldsAll (ps ++ [.tag source tag]) := by
  cases tag with
  | openIf condition => exact h.openIf hat source condition happly
  | turnElse => exact h.turnElse source happly
  | closeIf => exact h.closeIf source happly
  | «variable» name => exact h.reference source name happly
  | openOptions => exact h.openOptions hat source happly
  | closeOptions => exact h.closeOptions source happly
  | openOption attributes => exact h.openOption hat source attributes happly
  | bareOption => cases happly
  | closeOption => exact h.closeOption source happly

/-- A tag first has the pending text placed, and a bare option tag is never taken. -/
theorem take_tag_eq_ok {source : List Char} {tag : Tag} :
    r.take (.tag source tag) = .ok r' ↔
      tag ≠ .bareOption ∧ ∃ f g, r.flush = .ok f ∧ f.apply tag = .ok g
        ∧ { g with offset := g.offset + source.length } = r' := by
  by_cases hbare : tag = .bareOption
  · subst hbare
    constructor
    · intro htake
      cases htake
    · exact fun h => absurd rfl h.1
  · cases hflush : r.flush with
    | error fault => simp [Reader.take, hbare, hflush, bind, Except.bind]
    | ok f =>
      cases happly : f.apply tag with
      | error fault => simp [Reader.take, hbare, hflush, happly, bind, Except.bind]
      | ok g => simp [Reader.take, hbare, hflush, happly, bind, Except.bind, pure, Except.pure]

end

/-! ## 4. The whole reading -/

/-- No plain text is empty, and none follows another. -/
def Separated (ps : List Piece) : Prop :=
  ∀ before text after, ps = before ++ .plain text :: after → text ≠ [] ∧ startsPlain after = false

theorem Separated.of_append {ps qs : List Piece} (h : Separated (ps ++ qs)) : Separated qs :=
  fun before text after heq => h (ps ++ before) text after (by rw [heq, List.append_assoc])

theorem separated_nil : Separated [] :=
  fun before text after heq => absurd heq.symm (by simp)

theorem Separated.plain {ps : List Piece} {text : List Char} (h : Separated ps) (hne : text ≠ [])
    (hps : startsPlain ps = false) : Separated (.plain text :: ps) := by
  intro before other after heq
  cases before with
  | nil =>
    rw [List.nil_append, List.cons.injEq, Piece.plain.injEq] at heq
    rw [← heq.1, ← heq.2]
    exact ⟨hne, hps⟩
  | cons p before => exact h before other after (List.cons.inj heq).2

theorem Separated.tag {ps : List Piece} (h : Separated ps) (source : List Char) (tag : Tag) :
    Separated (.tag source tag :: ps) := by
  intro before other after heq
  cases before with
  | nil => cases heq
  | cons p before => exact h before other after (List.cons.inj heq).2

theorem Separated.left {ps qs : List Piece} (h : Separated (ps ++ qs)) : Separated ps := by
  intro before text after heq
  obtain ⟨hne, hafter⟩ := h before text (after ++ qs) (by rw [heq]; simp)
  refine ⟨hne, ?_⟩
  cases after with
  | nil => rfl
  | cons p after =>
    cases p with
    | plain => exact hafter
    | tag => rfl

theorem Separated.tail {p : Piece} {ps : List Piece} (h : Separated (p :: ps)) : Separated ps :=
  @Separated.of_append [p] ps h

theorem Separated.addPlain {ps : List Piece} {text : List Char} (h : Separated ps)
    (hne : text ≠ []) : Separated (addPlain text ps) := by
  cases ps with
  | nil => exact separated_nil.plain hne rfl
  | cons p ps =>
    cases p with
    | plain more => exact h.tail.plain (by simp [hne]) (h [] more ps rfl).2
    | tag source tag => exact h.plain hne rfl

theorem separated_joinPlain {ps : List Piece} (h : ∀ p ∈ ps, p.source ≠ []) :
    Separated (joinPlain ps) := by
  induction ps with
  | nil => exact separated_nil
  | cons p ps ih =>
    obtain ⟨hp, hps⟩ := List.forall_mem_cons.1 h
    cases p with
    | plain text => exact (ih hps).addPlain hp
    | tag source tag => exact (ih hps).tag source tag

theorem LexesTo.separated {cs rest : List Char} {ps : List Piece} (h : LexesTo cs ps rest) :
    Separated ps := by
  induction h with
  | nil => exact separated_nil
  | plain hne _ hps _ ih => exact ih.plain hne hps
  | braces _ _ _ ih | brackets _ _ _ ih => exact ih.tag _ _

theorem Lexes.separated {cs : List Char} {ps : List Piece} (h : Lexes cs ps) : Separated ps :=
  (lexesTo_nil_iff.2 h).separated

/-- At the beginning the reader holds nothing. -/
theorem Reader.Holds.start : Reader.start.Holds [] :=
  ⟨rfl, [], .root (.nil 0), rfl, fun hne => absurd rfl hne⟩

/-- No text is pending in front of plain text: the two would be one piece. -/
theorem Reader.Holds.pending_eq_nil {r : Reader} {ps rest : List Piece} {text : List Char}
    (h : r.Holds ps) (hsep : Separated (ps ++ .plain text :: rest)) : r.pending = [] := by
  obtain ⟨-, qs, -, rfl, -⟩ := h
  cases hpending : r.pending with
  | nil => rfl
  | cons c cs =>
    have hfollows := hsep qs (c :: cs).reverse (.plain text :: rest)
      (by simp [pendingPieces, hpending])
    cases hfollows.2

/-- One step: what the reader held and the piece it took. -/
theorem Reader.Holds.take {r r' : Reader} {ps rest : List Piece} {p : Piece} (h : r.Holds ps)
    (hsep : Separated (ps ++ p :: rest)) (htake : r.take p = .ok r') : r'.Holds (ps ++ [p]) := by
  cases p with
  | plain text =>
    cases htake
    have hpending := h.pending_eq_nil hsep
    obtain ⟨hoffset, qs, hreads, rfl, -⟩ := h
    have htext := (hsep (qs ++ pendingPieces r.pending) text rest rfl).1
    have hqs : qs ++ pendingPieces r.pending = qs := by simp [pendingPieces, hpending]
    rw [hqs] at hoffset ⊢
    refine ⟨by simp [hoffset, Piece.source], qs, hreads, ?_, fun _ => ?_⟩
    · simp [pendingPieces, Reader.append, List.reverseAux_eq, hpending, htext]
    · simp [Reader.append, hpending, hoffset]
  | tag source tag =>
    obtain ⟨-, f, g, hflush, happly, rfl⟩ := take_tag_eq_ok.1 htake
    have hat : f.offset = (sources ps).length := (offset_flush hflush).trans h.1
    obtain ⟨hreads, hpending⟩ := (h.flush hflush).apply hat source happly
    refine ⟨by simp [offset_apply happly, hat, Piece.source], _, hreads, ?_, fun hne => ?_⟩
    · simp [pendingPieces, hpending]
    · exact absurd hpending hne

theorem Reader.Holds.foldlM_take {r r' : Reader} {ps rest : List Piece} (h : r.Holds ps)
    (hsep : Separated (ps ++ rest)) (hrun : rest.foldlM Reader.take r = .ok r') :
    r'.Holds (ps ++ rest) := by
  induction rest generalizing r ps with
  | nil => cases hrun; simpa using h
  | cons p rest ih =>
    obtain ⟨next, htake, hrest⟩ := foldlM_cons_eq_ok_iff.1 hrun
    have hstep := ih (h.take hsep htake) (by simpa using hsep) hrest
    simpa using hstep

theorem holds_of_run {r : Reader} {ps : List Piece} (hsep : Separated ps)
    (hrun : ps.foldlM Reader.take .start = .ok r) : r.Holds ps :=
  Reader.Holds.start.foldlM_take hsep hrun

/-- Placing text changes what is in the innermost block only. -/
theorem openings_flush {r f : Reader} (hflush : r.flush = .ok f) :
    f.stack.map Frame.opening = r.stack.map Frame.opening := by
  unfold Reader.flush at hflush
  split at hflush
  · cases hflush
    rfl
  · dsimp only at hflush
    split at hflush
    · split at hflush
      · cases hflush
        rfl
      · cases hflush
    · cases hflush
      cases hstack : r.stack <;> simp [Reader.place, Frame.opening]

theorem stack_flush {r f : Reader} (hflush : r.flush = .ok f) : f.stack = [] ↔ r.stack = [] := by
  rw [← List.map_eq_nil_iff, openings_flush hflush, List.map_eq_nil_iff]

/-- Where no block is open at the end the pieces derive the nodes. -/
theorem Reader.Holds.finish {r : Reader} {ps : List Piece} {nodes : List Node} (h : r.Holds ps)
    (hfinish : r.finish = .ok nodes) : ∃ n, Content 0 ps nodes n := by
  unfold Reader.finish at hfinish
  split at hfinish
  · next hstack =>
    cases hflush : r.flush with
    | error fault => rw [hflush] at hfinish; cases hfinish
    | ok f =>
      rw [hflush] at hfinish
      cases hfinish
      have hreads := (h.flush hflush).1
      rw [(stack_flush hflush).2 hstack] at hreads
      cases hreads with
      | root hc => exact ⟨f.groups, hc⟩
  · cases hfinish

end SeededText
