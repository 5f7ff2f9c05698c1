import SeededText.Proofs.FirstFault
import SeededText.Proofs.Template.Derivation

/-!
# Where a text is at fault

A text that is no template is refused at an offset and for a cause.  Which they are is said here without
the reader.

`OpenAt` says which blocks a text has open at an offset: the pieces in front of it, as the grammar takes
them, derive the nodes and open the frames.  `Fails` says what can be wrong there.  A tag may not be
allowed with these blocks open (`Refuses`), it may have no end, or the text may be over.  Nothing else
can be wrong, and nothing of this can be missed: `readTemplate_eq_error_iff`.
-/

namespace SeededText

open Text

/-! ## 1. The blocks that are open -/

/-- The tag opens the block. -/
inductive Tag.Opens : Tag → Block → Prop where
  | conditional (condition : List Char) (thenBranch : Option (List Node)) :
      Opens (.openIf condition) (.conditional (String.ofList condition) thenBranch)
  | options (index : Nat) (closed : List (Choice Node)) :
      Opens .openOptions (.options index closed)
  | optionBody {attributes : List Char} {title : String} {condition : Option String} :
      readOptionAttributes attributes = .ok (title, condition) →
        Opens (.openOption attributes) (.optionBody title condition)

/-- At the offset the text has the frames open.  The pieces in front of it derive what is in them, apart
from the plain text `gap` right before the offset, if there is any, which is in none of them yet. -/
def OpenAt (cs : List Char) (offset : Nat) (frames : List Frame) (gap : List Char) : Prop :=
  ∃ ps root n, Reads ps root frames n ∧
    LexesTo cs (ps ++ pendingPieces gap.reverse) (cs.drop offset) ∧
      offset = (sources (ps ++ pendingPieces gap.reverse)).length

section

variable {cs rest gap : List Char} {ps : List Piece} {root : List Node} {frames : List Frame}
  {f : Frame} {n offset : Nat}

/-- A frame is opened by the first of its pieces. -/
theorem Frame.Opens.opened {m : Nat} (h : f.Opens m ps n) :
    ∃ source tag after, ps = .tag source tag :: after ∧ tag.Opens f.block := by
  cases h with
  | thenBranch source condition => exact ⟨source, _, _, rfl, .conditional condition none⟩
  | elseBranch source condition => exact ⟨source, _, _, rfl, .conditional condition (some _)⟩
  | options source => exact ⟨source, _, _, rfl, .options _ _⟩
  | optionBody source _ hattributes => exact ⟨source, _, _, rfl, .optionBody hattributes⟩

/-- Every open block was opened by a piece that stands at its offset. -/
theorem Reads.opened (h : Reads ps root frames n) (hf : f ∈ frames) :
    ∃ before source tag after, ps = before ++ .tag source tag :: after ∧
      f.openedAt = (sources before).length ∧ tag.Opens f.block := by
  induction h with
  | root => cases hf
  | @frame m n ps qs root frames frame hr hopens _ hat ih =>
    rcases List.mem_cons.1 hf with rfl | hf
    · obtain ⟨source, tag, after, rfl, htag⟩ := hopens.opened
      exact ⟨ps, source, tag, after, rfl, hat, htag⟩
    · obtain ⟨before, source, tag, after, rfl, hat, htag⟩ := ih hf
      exact ⟨before, source, tag, after ++ qs, by simp, hat, htag⟩

/-- Where an open block was opened the tag that opens it stands in the text. -/
theorem OpenAt.opened (h : OpenAt cs offset frames gap) (hf : f ∈ frames) :
    ∃ tag, tag.Opens f.block ∧ BeginsWith (cs.drop f.openedAt) tag := by
  obtain ⟨ps, root, n, hreads, hlexes, -⟩ := h
  obtain ⟨before, source, tag, after, rfl, hat, htag⟩ := hreads.opened hf
  rw [List.append_assoc] at hlexes
  obtain ⟨mid, hbefore, hafter⟩ := hlexes.of_append
  refine ⟨tag, htag, ?_⟩
  rw [hat, hbefore.drop]
  exact hafter.beginsWith

/-- The text that is in no frame stands in front of the offset. -/
theorem OpenAt.behind_gap (h : OpenAt cs offset frames gap) :
    ∃ before, cs = before ++ gap ++ cs.drop offset ∧ offset = (before ++ gap).length := by
  obtain ⟨ps, root, n, -, hlexes, hoffset⟩ := h
  have hgap : sources (ps ++ pendingPieces gap.reverse) = sources ps ++ gap := by
    cases gap with
    | nil => simp [pendingPieces]
    | cons => simp [pendingPieces, Piece.source]
  rw [hgap] at hoffset
  have hsplit := hlexes.split
  rw [hgap] at hsplit
  exact ⟨sources ps, hsplit, hoffset⟩

end

/-! ## 2. What can be wrong -/

/-- The tag is content of the block around it. -/
def Tag.isContent : Tag → Bool
  | .openIf _ | .variable _ | .openOptions => true
  | .turnElse | .closeIf | .closeOptions | .openOption _ | .bareOption | .closeOption => false

/-- With the frames open the tag, which stands at the offset `here`, is refused. -/
inductive Refuses (frames : List Frame) (here : Nat) : Tag → TemplateFault → Prop where
  /-- content directly inside a group -/
  | strayContent {tag : Tag} : tag.isContent = true → insideGroup frames = true →
      Refuses frames here tag ⟨here, .invalidOptionTag .strayContent⟩
  /-- an else tag, but the innermost block is no conditional in its then-branch -/
  | noThenBranch : (∀ condition nodes openedAt outer,
        frames ≠ ⟨.conditional condition none, nodes, openedAt⟩ :: outer) →
      Refuses frames here .turnElse ⟨here, .unexpectedElse⟩
  /-- the end of a conditional, but none is open -/
  | noConditional : (∀ f ∈ frames, f.isConditional = false) →
      Refuses frames here .closeIf ⟨here, .unmatchedEndIf⟩
  /-- the end of a conditional in which a group or an option is still open -/
  | overGroup {f : Frame} {outer : List Frame} : frames = f :: outer → f.isConditional = false →
      (∃ g ∈ outer, g.isConditional = true) →
        Refuses frames here .closeIf ⟨f.openedAt, .unclosedOptionGroup⟩
  /-- the end of an option or of a group in which a conditional is still open -/
  | overConditional {tag : Tag} {f : Frame} {outer : List Frame} :
      tag = .closeOption ∨ tag = .closeOptions → frames = f :: outer → f.isConditional = true →
        Refuses frames here tag ⟨f.openedAt, .unclosedConditional⟩
  /-- the end of an option, but what is innermost is a group, or nothing -/
  | noOption : frames = [] ∨ insideGroup frames = true →
      Refuses frames here .closeOption ⟨here, .unclosedOptionGroup⟩
  /-- the end of a group, but no block is open -/
  | noGroup : frames = [] → Refuses frames here .closeOptions ⟨here, .unclosedOptionGroup⟩
  /-- the end of a group in which an option is still open -/
  | overOption {f : Frame} {outer : List Frame} : frames = f :: outer → f.isOption = true →
      Refuses frames here .closeOptions ⟨f.openedAt, .unclosedOptionGroup⟩
  /-- the end of a group without options -/
  | emptyGroup {index openedAt : Nat} {nodes : List Node} {outer : List Frame} :
      frames = ⟨.options index [], nodes, openedAt⟩ :: outer →
        Refuses frames here .closeOptions ⟨openedAt, .invalidOptionTag .emptyGroup⟩
  | outsideGroup {attributes : List Char} : insideGroup frames = false →
      Refuses frames here (.openOption attributes) ⟨here, .invalidOptionTag .outsideGroup⟩
  | attributes {attributes : List Char} {fault : OptionFault} : insideGroup frames = true →
      readOptionAttributes attributes = .error fault →
        Refuses frames here (.openOption attributes) ⟨here, .invalidOptionTag fault⟩
  | bareOption : Refuses frames here .bareOption ⟨here, .invalidOptionTag .missingTitle⟩

/-- With the frames open at the offset `here`, and the plain text `gap` in front of it in none of them
yet, the text cannot be read on. -/
inductive Fails (cs : List Char) (frames : List Frame) (here : Nat) (gap : List Char) :
    TemplateFault → Prop where
  /-- a tag is not allowed; for all but one the text in front of it is placed first -/
  | refused {tag : Tag} {fault : TemplateFault} : BeginsWith (cs.drop here) tag →
      (tag = .bareOption ∨ gap = []) → Refuses frames here tag fault → Fails cs frames here gap fault
  /-- the text in front of a tag may not stand directly inside a group -/
  | stray {tag : Tag} : BeginsWith (cs.drop here) tag → tag ≠ .bareOption →
      insideGroup frames = true → allBlank gap = false →
        Fails cs frames here gap ⟨here - gap.length, .invalidOptionTag .strayText⟩
  /-- a tag is never closed -/
  | endless {cause : TemplateCause} : Stops (cs.drop here) (some cause) →
      Fails cs frames here gap ⟨here, cause⟩
  /-- the text is over, but not the innermost block -/
  | unclosed {f : Frame} {outer : List Frame} : cs.drop here = [] → frames = f :: outer →
      Fails cs frames here gap
        ⟨f.openedAt, if f.isConditional then .unclosedConditional else .unclosedOptionGroup⟩

/-! ## 3. A refused tag

The reader refuses a tag for what its innermost frame is, so each tag's cases are those of the stack. -/

section

variable {r f : Reader} {fault : TemplateFault} {tag : Tag}

/-- Content is refused directly inside a group only. -/
theorem refuses_content {next : Reader} (hcontent : tag.isContent = true)
    (h : (do r.allowContent; return next) = .error fault) :
    Refuses r.stack r.offset tag fault := by
  cases hgroup : insideGroup r.stack with
  | true =>
    simp only [Reader.allowContent, inOptions_eq, hgroup, if_true, faultAt] at h
    cases h
    exact .strayContent hcontent hgroup
  | false =>
    rw [allowContent_bind_eq_ok.2 ⟨hgroup, rfl⟩] at h
    cases h

theorem refuses_turnElse (h : r.turnElse = .error fault) :
    Refuses r.stack r.offset .turnElse fault := by
  unfold Reader.turnElse at h
  split at h
  · cases h
  · next hnone =>
    cases h
    exact .noThenBranch fun condition nodes openedAt outer => hnone condition nodes openedAt outer

theorem refuses_closeIf (h : r.closeIf = .error fault) :
    Refuses r.stack r.offset .closeIf fault := by
  unfold Reader.closeIf at h
  split at h
  · next hstack =>
    cases h
    exact .noConditional (by simp [hstack])
  · cases h
  · cases h
  · next frame outer hthen helse hstack =>
    have hframe : frame.isConditional = false := by
      obtain ⟨block, nodes, openedAt⟩ := frame
      cases block with
      | conditional condition thenBranch =>
        cases thenBranch with
        | none => exact (helse _ _ _ rfl).elim
        | some => exact (hthen _ _ _ _ rfl).elim
      | options | optionBody => rfl
    split at h
    · next houter =>
      cases h
      exact .overGroup hstack hframe (by simpa using houter)
    · next houter =>
      cases h
      refine .noConditional ?_
      rw [hstack]
      exact List.forall_mem_cons.2 ⟨hframe, by simpa using houter⟩

theorem refuses_openOption {attributes : List Char} (h : r.openOption attributes = .error fault) :
    Refuses r.stack r.offset (.openOption attributes) fault := by
  unfold Reader.openOption at h
  split at h
  · next hgroup =>
    split at h
    · next hattributes =>
      cases h
      exact .attributes hgroup hattributes
    · cases h
  · next hgroup =>
    cases h
    exact .outsideGroup (by simpa [inOptions_eq] using hgroup)

theorem refuses_closeOption (h : r.closeOption = .error fault) :
    Refuses r.stack r.offset .closeOption fault := by
  unfold Reader.closeOption at h
  split at h
  · cases h
  · next hstack =>
    cases h
    exact .overConditional (.inl rfl) hstack rfl
  · next hoption hconditional =>
    cases h
    refine .noOption ?_
    cases hstack : r.stack with
    | nil => exact .inl rfl
    | cons frame outer =>
      obtain ⟨block, nodes, openedAt⟩ := frame
      cases block with
      | conditional => exact absurd hstack (hconditional _ _ _ _ _)
      | optionBody => exact absurd hstack (hoption _ _ _ _ _)
      | options => exact .inr rfl

theorem refuses_closeOptions (h : r.closeOptions = .error fault) :
    Refuses r.stack r.offset .closeOptions fault := by
  unfold Reader.closeOptions at h
  split at h
  · next hstack =>
    split at h
    · next hempty =>
      cases h
      rw [List.isEmpty_iff.1 hempty] at hstack
      exact .emptyGroup hstack
    · cases h
  · next hstack =>
    cases h
    exact .overConditional (.inr rfl) hstack rfl
  · next hstack =>
    cases h
    exact .overOption hstack rfl
  · next hstack =>
    cases h
    exact .noGroup hstack

/-- A tag that the reader refuses is refused for the frames that it has open. -/
theorem refuses_of_apply (h : r.apply tag = .error fault) :
    Refuses r.stack r.offset tag fault := by
  cases tag with
  | openIf => exact refuses_content rfl h
  | «variable» => exact refuses_content rfl h
  | openOptions => exact refuses_content rfl h
  | turnElse => exact refuses_turnElse h
  | closeIf => exact refuses_closeIf h
  | openOption => exact refuses_openOption h
  | closeOption => exact refuses_closeOption h
  | closeOptions => exact refuses_closeOptions h
  | bareOption =>
    cases h
    exact .bareOption

/-- And the reader refuses every tag that these frames refuse. -/
theorem apply_of_refuses (h : Refuses r.stack r.offset tag fault) : r.apply tag = .error fault := by
  cases h with
  | strayContent hcontent hgroup =>
    cases tag with
    | openIf | «variable» | openOptions =>
      simp [Reader.apply, Reader.allowContent, inOptions_eq, hgroup, faultAt, bind, Except.bind]
    | _ => cases hcontent
  | noThenBranch hnone =>
    show r.turnElse = _
    unfold Reader.turnElse
    split
    · next hstack => exact absurd hstack (hnone _ _ _ _)
    · rfl
  | noConditional hnone =>
    show r.closeIf = _
    unfold Reader.closeIf
    split
    · rfl
    · next hstack => simp [hstack, Frame.isConditional] at hnone
    · next hstack => simp [hstack, Frame.isConditional] at hnone
    · next hstack =>
      rw [hstack] at hnone
      rw [if_neg (by simpa using (List.forall_mem_cons.1 hnone).2)]
      rfl
  | @overGroup f outer hstack hframe houter =>
    show r.closeIf = _
    obtain ⟨block, nodes, openedAt⟩ := f
    cases block with
    | conditional => cases hframe
    | options | optionBody =>
      simp only [Reader.closeIf, hstack]
      rw [if_pos (by simpa using houter)]
      rfl
  | @overConditional _ f _ htag hstack hframe =>
    obtain ⟨block, nodes, openedAt⟩ := f
    cases block with
    | conditional =>
      rcases htag with rfl | rfl
      · simp [Reader.apply, Reader.closeOption, hstack, faultAt]
      · simp [Reader.apply, Reader.closeOptions, hstack, faultAt]
    | options | optionBody => cases hframe
  | noOption hgroup =>
    show r.closeOption = _
    unfold Reader.closeOption
    split
    · next hstack => simp [hstack, insideGroup] at hgroup
    · next hstack => simp [hstack, insideGroup] at hgroup
    · rfl
  | noGroup hstack => simp [Reader.apply, Reader.closeOptions, hstack, faultAt]
  | @overOption f _ hstack hframe =>
    obtain ⟨block, nodes, openedAt⟩ := f
    cases block with
    | optionBody => simp [Reader.apply, Reader.closeOptions, hstack, faultAt]
    | options | conditional => cases hframe
  | emptyGroup hstack => simp [Reader.apply, Reader.closeOptions, hstack, faultAt]
  | outsideGroup hgroup => simp [Reader.apply, Reader.openOption, inOptions_eq, hgroup, faultAt]
  | attributes hgroup hattributes =>
    simp [Reader.apply, Reader.openOption, inOptions_eq, hgroup, hattributes, faultAt]
  | bareOption => rfl

end

/-! ## 4. A refused text -/

section

variable {cs rest gap : List Char} {ps : List Piece} {frames : List Frame} {r f : Reader}
  {fault : TemplateFault} {here : Nat}

theorem flush_eq_error_iff :
    r.flush = .error fault ↔ insideGroup r.stack = true ∧ allBlank r.pending.reverse = false ∧
      fault = ⟨r.pendingAt, .invalidOptionTag .strayText⟩ := by
  cases hpending : r.pending with
  | nil => simp [Reader.flush, hpending, allBlank]
  | cons c pending =>
    cases hgroup : insideGroup r.stack with
    | false => simp [Reader.flush, hpending, inOptions_eq, hgroup]
    | true =>
      cases hblank : allBlank (c :: pending).reverse with
      | true => simp [flush_of_inside (r := r) (by rwa [hpending]) hgroup]
      | false =>
        have hflush : r.flush = .error ⟨r.pendingAt, .invalidOptionTag .strayText⟩ := by
          simp only [Reader.flush, hpending, inOptions_eq, hgroup, hblank]
          rfl
        rw [hflush, Except.error.injEq]
        exact ⟨fun h => ⟨rfl, rfl, h.symm⟩, fun h => h.2.2.symm⟩

/-- A tag is not taken because it is refused once the text in front of it is placed, or because that
text may not stand there. -/
theorem take_tag_eq_error_iff {source : List Char} {tag : Tag} :
    r.take (.tag source tag) = .error fault ↔
      if tag = .bareOption then r.apply tag = .error fault
      else r.flush = .error fault ∨ ∃ f, r.flush = .ok f ∧ f.apply tag = .error fault := by
  split
  · next hbare =>
    subst hbare
    exact Iff.rfl
  · next hbare =>
    cases hflush : r.flush with
    | error first => simp [Reader.take, hbare, hflush, bind, Except.bind]
    | ok f =>
      cases happly : f.apply tag with
      | error first => simp [Reader.take, hbare, hflush, happly, bind, Except.bind]
      | ok g => simp [Reader.take, hbare, hflush, happly, bind, Except.bind, pure, Except.pure]

/-- Where the text is over, an open block is a fault. -/
theorem finish_eq_error_iff :
    r.finish = .error fault ↔ ∃ f outer, r.stack = f :: outer ∧ fault =
      ⟨f.openedAt, if f.isConditional then .unclosedConditional else .unclosedOptionGroup⟩ := by
  unfold Reader.finish
  split
  · next hstack =>
    -- outside all blocks text is a literal, so placing it does not fail
    cases hflush : r.flush with
    | error first =>
      have hgroup := (flush_eq_error_iff.1 hflush).1
      rw [hstack] at hgroup
      cases hgroup
    | ok f => simp [hstack, bind, Except.bind, pure, Except.pure]
  · next f outer hstack =>
    simp only [hstack, List.cons.injEq, faultAt, Except.error.injEq]
    constructor
    · exact fun h => ⟨f, outer, ⟨rfl, rfl⟩, h.symm⟩
    · rintro ⟨_, _, ⟨rfl, rfl⟩, rfl⟩
      rfl

/-- What the reading is where the scan has stopped: its fault, or the end of the text. -/
def Reader.stop (r : Reader) : Option TemplateCause → Except TemplateFault (List Node)
  | some cause => faultAt r.offset cause
  | none => r.finish

theorem readTemplate_eq (cs : List Char) : readTemplate cs =
    ((pieces cs).items.foldlM Reader.take .start >>= fun r => r.stop (pieces cs).fault) := by
  unfold readTemplate Reader.stop
  rfl

theorem readTemplate_eq_error :
    readTemplate cs = .error fault ↔
      (joinPlain (pieces cs).items).foldlM Reader.take .start = .error fault ∨
        ∃ r, (joinPlain (pieces cs).items).foldlM Reader.take .start = .ok r ∧
          r.stop (pieces cs).fault = .error fault := by
  rw [foldlM_joinPlain _ fun p hp => source_ne_nil_of_mem_pieces hp, readTemplate_eq]
  cases hrun : (pieces cs).items.foldlM Reader.take .start with
  | error first => simp [bind, Except.bind]
  | ok r => simp [bind, Except.bind]

/-- Where the reader stands, the frames of its stack are open. -/
theorem Reader.Holds.openAt (h : r.Holds ps) (hlexes : LexesTo cs ps rest) :
    OpenAt cs r.offset r.stack r.pending.reverse := by
  obtain ⟨hoffset, qs, hreads, hps, -⟩ := h
  refine ⟨qs, r.root, r.groups, hreads, ?_, ?_⟩
  · rw [List.reverse_reverse, ← hps, hoffset, hlexes.drop]
    exact hlexes
  · rw [List.reverse_reverse, ← hps, hoffset]

theorem Reader.HoldsAll.openAt (h : r.HoldsAll ps) (hoffset : r.offset = (sources ps).length)
    (hlexes : LexesTo cs ps rest) : OpenAt cs r.offset r.stack [] := by
  have hgap : ps ++ pendingPieces ([] : List Char).reverse = ps := List.append_nil ps
  refine ⟨ps, r.root, r.groups, h.1, ?_, by rw [hgap, hoffset]⟩
  rw [hgap, hoffset, hlexes.drop]
  exact hlexes

/-- The pending text begins where it was met. -/
theorem Reader.Holds.pendingAt (h : r.Holds ps) (hne : r.pending ≠ []) :
    r.pendingAt = r.offset - r.pending.reverse.length := by
  obtain ⟨hoffset, qs, -, rfl, hat⟩ := h
  rw [hat hne, hoffset]
  simp [pendingPieces, hne, Piece.source]

/-- The reader stands in front of a piece that it does not take. -/
theorem Reader.Holds.fails {p : Piece} {after : List Piece} (h : r.Holds ps)
    (hlexes : LexesTo cs (ps ++ p :: after) rest) (htake : r.take p = .error fault) :
    ∃ here frames gap, OpenAt cs here frames gap ∧ Fails cs frames here gap fault := by
  cases p with
  | plain => cases htake
  | tag source tag =>
    obtain ⟨mid, hbefore, hafter⟩ := hlexes.of_append
    have hbegins : BeginsWith (cs.drop r.offset) tag := by
      rw [h.1, hbefore.drop]
      exact hafter.beginsWith
    rw [take_tag_eq_error_iff] at htake
    split at htake
    · next hbare =>
      exact ⟨_, _, _, h.openAt hbefore, .refused hbegins (.inl hbare) (refuses_of_apply htake)⟩
    · next hbare =>
      rcases htake with hflush | ⟨f, hflush, happly⟩
      · obtain ⟨hgroup, hblank, rfl⟩ := flush_eq_error_iff.1 hflush
        have hne : r.pending ≠ [] := by
          rintro hnil
          rw [hnil] at hblank
          cases hblank
        refine ⟨_, _, _, h.openAt hbefore, ?_⟩
        rw [h.pendingAt hne]
        exact .stray hbegins hbare hgroup hblank
      · have hoffset := offset_flush hflush
        refine ⟨_, _, _, (h.flush hflush).openAt (hoffset.trans h.1) hbefore, ?_⟩
        exact .refused (by rwa [hoffset]) (.inr rfl) (refuses_of_apply happly)

/-- A text that is not read has something wrong where blocks are open. -/
theorem exists_fails (h : readTemplate cs = .error fault) :
    ∃ here frames gap, OpenAt cs here frames gap ∧ Fails cs frames here gap fault := by
  obtain ⟨rest, hlexes, hstops⟩ := exists_lexesTo cs
  rw [joinedPieces] at hlexes hstops
  rcases readTemplate_eq_error.1 h with hrun | ⟨r, hrun, hend⟩
  · obtain ⟨before, p, after, r, hitems, hbefore, htake⟩ := foldlM_eq_error_iff.1 hrun
    dsimp only at hlexes
    rw [hitems] at hlexes
    obtain ⟨mid, hfront, -⟩ := hlexes.of_append
    exact (holds_of_run hfront.separated hbefore).fails hlexes htake
  · have hholds := holds_of_run hlexes.separated hrun
    have hdrop : cs.drop r.offset = rest := by rw [hholds.1, hlexes.drop]
    refine ⟨_, _, _, hholds.openAt hlexes, ?_⟩
    cases hfault : (pieces cs).fault with
    | some cause =>
      rw [hfault] at hend hstops
      cases hend
      exact .endless (by rwa [hdrop])
    | none =>
      rw [hfault] at hend hstops
      obtain ⟨f, outer, hstack, rfl⟩ := finish_eq_error_iff.1 hend
      cases hstops
      exact .unclosed hdrop hstack

/-! ## 5. Nothing is missed

The pieces that leave the frames open are taken, whatever follows them, and what is wrong behind them is
then met. -/

/-- The reader comes to the offset.  The frames are those that it has open, once the text in front of
the offset is placed, if that is in one of them. -/
theorem OpenAt.run (h : OpenAt cs here frames gap) :
    ∃ ps r, LexesTo cs ps (cs.drop here) ∧ ps.foldlM Reader.take .start = .ok r ∧ r.Holds ps ∧
      r.offset = here ∧
        ((gap = [] ∧ ∃ f, r.flush = .ok f ∧ f.stack = frames) ∨
          (gap ≠ [] ∧ r.stack = frames ∧ r.pending.reverse = gap)) := by
  obtain ⟨ps, root, n, hreads, hlexes, hhere⟩ := h
  have hsep := hlexes.separated
  obtain ⟨r, hrun, f, hflush, htree, -⟩ := hreads.run hsep.left
  obtain ⟨-, rfl⟩ := Prod.mk.inj htree
  have hholds := holds_of_run hsep.left hrun
  cases gap with
  | nil =>
    have hps : ps ++ pendingPieces ([] : List Char).reverse = ps := List.append_nil ps
    rw [hps] at hlexes hhere
    exact ⟨ps, r, hlexes, hrun, hholds, hholds.1.trans hhere.symm, .inl ⟨rfl, f, hflush, rfl⟩⟩
  | cons c gap =>
    have hgap : pendingPieces (c :: gap).reverse = [.plain (c :: gap)] := by simp [pendingPieces]
    rw [hgap] at hlexes hhere hsep
    -- the pieces in front of plain text leave none pending, so they are all placed already
    have hnil := hholds.pending_eq_nil hsep
    rw [flush_of_pending_eq_nil hnil] at hflush
    cases hflush
    have htake : (ps ++ [Piece.plain (c :: gap)]).foldlM Reader.take .start
        = .ok { r.append (c :: gap) with offset := r.offset + (c :: gap).length } := by
      rw [List.foldlM_append, hrun]
      rfl
    have hholds' := holds_of_run hsep htake
    refine ⟨_, _, hlexes, htake, hholds', hholds'.1.trans hhere.symm,
      .inr ⟨List.cons_ne_nil c gap, rfl, ?_⟩⟩
    simp [Reader.append, hnil, List.reverseAux_eq]

/-- A tag that the reader comes to and does not take is where the reading ends. -/
theorem readTemplate_of_take {tag : Tag} (hlexes : LexesTo cs ps rest) (hbegins : BeginsWith rest tag)
    (hrun : ps.foldlM Reader.take .start = .ok r)
    (htake : ∀ source, r.take (.tag source tag) = .error fault) : readTemplate cs = .error fault := by
  obtain ⟨source, more, hitems⟩ := hbegins.joinedPieces
  have hjoined := joinedPieces_of_lexesTo hlexes (by rw [hitems]; rfl)
  rw [hitems, joinedPieces, Pieces.mk.injEq] at hjoined
  refine readTemplate_eq_error.2 (.inl ?_)
  rw [hjoined.1]
  exact foldlM_eq_error_iff.2 ⟨ps, _, more, r, rfl, hrun, htake source⟩

/-- Where the scan stops the reading ends. -/
theorem readTemplate_of_stops {cause : Option TemplateCause} (hlexes : LexesTo cs ps rest)
    (hstops : Stops rest cause) (hrun : ps.foldlM Reader.take .start = .ok r)
    (hend : r.stop cause = .error fault) : readTemplate cs = .error fault := by
  have hjoined := joinedPieces_of_lexesTo hlexes (by rw [hstops.joinedPieces]; rfl)
  rw [hstops.joinedPieces, List.append_nil, joinedPieces, Pieces.mk.injEq] at hjoined
  refine readTemplate_eq_error.2 (.inr ⟨r, ?_, ?_⟩)
  · rw [hjoined.1]
    exact hrun
  · rw [hjoined.2]
    exact hend

/-- A block that is open once the text in front of the end is placed is open at the end. -/
theorem finish_of_openings {g : Frame} {outer : List Frame}
    (h : r.stack.map Frame.opening = (g :: outer).map Frame.opening) :
    r.finish = .error
      ⟨g.openedAt, if g.isConditional then .unclosedConditional else .unclosedOptionGroup⟩ := by
  cases hr : r.stack with
  | nil =>
    rw [hr] at h
    cases h
  | cons f frames =>
    rw [hr, List.map_cons, List.map_cons, List.cons.injEq, Frame.opening, Frame.opening,
      Prod.mk.injEq] at h
    obtain ⟨⟨hblock, hat⟩, -⟩ := h
    have hconditional : f.isConditional = g.isConditional := by
      simp only [Frame.isConditional, hblock]
    exact finish_eq_error_iff.2 ⟨f, frames, hr, by rw [hconditional, hat]⟩

/-- A text in which something is wrong is not read, and that is what is met first. -/
theorem readTemplate_of_fails (hopen : OpenAt cs here frames gap)
    (hfails : Fails cs frames here gap fault) : readTemplate cs = .error fault := by
  obtain ⟨ps, r, hlexes, hrun, hholds, rfl, hstate⟩ := hopen.run
  cases hfails with
  | refused hbegins hplaced hrefuses =>
    refine readTemplate_of_take hlexes hbegins hrun fun source => take_tag_eq_error_iff.2 ?_
    split
    · next hbare =>
      subst hbare
      cases hrefuses with
      | strayContent hcontent => cases hcontent
      | overConditional htag => rcases htag with h | h <;> cases h
      | bareOption => rfl
    · next hbare =>
      rcases hstate with ⟨-, f, hflush, rfl⟩ | ⟨hgap, -, -⟩
      · rw [← offset_flush hflush] at hrefuses
        exact .inr ⟨f, hflush, apply_of_refuses hrefuses⟩
      · exact absurd (hplaced.resolve_left hbare) hgap
  | stray hbegins hbare hgroup hblank =>
    rcases hstate with ⟨rfl, -⟩ | ⟨hgap, rfl, rfl⟩
    · cases hblank
    · refine readTemplate_of_take hlexes hbegins hrun fun source => take_tag_eq_error_iff.2 ?_
      rw [if_neg hbare, ← hholds.pendingAt (by simpa using hgap)]
      exact .inl (flush_eq_error_iff.2 ⟨hgroup, hblank, rfl⟩)
  | endless hstops => exact readTemplate_of_stops hlexes hstops hrun rfl
  | @unclosed g outer hover hframes =>
    rw [hover] at hlexes
    subst hframes
    have hopenings : r.stack.map Frame.opening = (g :: outer).map Frame.opening := by
      rcases hstate with ⟨-, f, hflush, hstack⟩ | ⟨-, hstack, -⟩
      · rw [← openings_flush hflush, hstack]
      · rw [hstack]
    exact readTemplate_of_stops hlexes .done hrun (finish_of_openings hopenings)

/-- A text is refused exactly for what is wrong where the blocks that it leaves open are open. -/
theorem readTemplate_eq_error_iff :
    readTemplate cs = .error fault ↔
      ∃ here frames gap, OpenAt cs here frames gap ∧ Fails cs frames here gap fault := by
  constructor
  · exact exists_fails
  · rintro ⟨here, frames, gap, hopen, hfails⟩
    exact readTemplate_of_fails hopen hfails

end

end SeededText
