import Mathlib.Control.Monad.Basic
import SeededText.Proofs.Template.Attributes
import SeededText.Proofs.Template.Faults

/-!
# The place that is given for a fault

The position of a fault is counted from an offset, in lines and in characters.  At the offset stands the
mark of a tag, and for each cause it is said here of which (`TemplateCause.PointsAt`): of the tag in
front of which the reading gives up, or of the tag that opened a block which is still open there.

For one cause it is not a tag, and that is text between the options of a group.  The place given for it
is where the literal text begins, and that is the place of the text that is astray only if no blank
stands in front of it: `strayText_at_text_iff`.
-/

namespace SeededText

open Text

section

variable {cs gap : List Char} {frames : List Frame} {f : Frame} {here offset : Nat}
  {fault : TemplateFault}

/-! ## 1. Which tag it is -/

/-- The place of a fault of an option tag, with the frames open at `here`. -/
def OptionFault.PointsAt (cs : List Char) (frames : List Frame) (here offset : Nat) :
    OptionFault → Prop
  | .missingClose =>
    offset = here ∧ ∃ after, cs.drop offset = '[' :: '[' :: after ∧ OptionLike after ∧
      ¬ [']', ']'] <:+: after
  | .outsideGroup =>
    offset = here ∧ insideGroup frames = false ∧
      ∃ attributes, BeginsWith (cs.drop offset) (.openOption attributes)
  | .emptyGroup =>
    BeginsWith (cs.drop offset) .openOptions ∧
      ∃ index nodes outer, frames = ⟨.options index [], nodes, offset⟩ :: outer
  | .strayContent =>
    offset = here ∧ insideGroup frames = true ∧
      ∃ tag, tag.isContent = true ∧ BeginsWith (cs.drop offset) tag
  | .strayText => False
  | fault =>
    offset = here ∧ (BeginsWith (cs.drop offset) .bareOption ∧ fault = .missingTitle ∨
      ∃ attributes, BeginsWith (cs.drop offset) (.openOption attributes) ∧
        readOptionAttributes attributes = .error fault)

/-- The place of a fault, with the frames open at `here`, where the reading gives up. -/
def TemplateCause.PointsAt (cs : List Char) (frames : List Frame) (here offset : Nat) :
    TemplateCause → Prop
  | .unterminatedVariable =>
    ∃ after, cs.drop offset = '\x7b' :: '\x7b' :: after ∧ ¬ ['\x7d', '\x7d'] <:+: after
  | .unclosedConditional =>
    ∃ f ∈ frames, f.openedAt = offset ∧ f.isConditional = true ∧
      ∃ condition, BeginsWith (cs.drop offset) (.openIf condition)
  | .unexpectedElse =>
    offset = here ∧ BeginsWith (cs.drop offset) .turnElse ∧
      ∀ condition nodes openedAt outer,
        frames ≠ ⟨.conditional condition none, nodes, openedAt⟩ :: outer
  | .unmatchedEndIf =>
    offset = here ∧ BeginsWith (cs.drop offset) .closeIf ∧ ∀ f ∈ frames, f.isConditional = false
  | .unclosedOptionGroup =>
    (∃ f ∈ frames, f.openedAt = offset ∧ f.isConditional = false ∧
      (BeginsWith (cs.drop offset) .openOptions ∨
        ∃ attributes, BeginsWith (cs.drop offset) (.openOption attributes))) ∨
    offset = here ∧ BeginsWith (cs.drop offset) .closeOption ∧
      (frames = [] ∨ insideGroup frames = true) ∨
    offset = here ∧ BeginsWith (cs.drop offset) .closeOptions ∧ frames = []
  | .invalidOptionTag fault => fault.PointsAt cs frames here offset

/-- A conditional that is open was opened by its tag. -/
theorem OpenAt.openIf (h : OpenAt cs here frames gap) (hf : f ∈ frames)
    (hconditional : f.isConditional = true) :
    ∃ condition, BeginsWith (cs.drop f.openedAt) (.openIf condition) := by
  obtain ⟨tag, htag, hbegins⟩ := h.opened hf
  obtain ⟨block, nodes, openedAt⟩ := f
  cases htag with
  | conditional condition => exact ⟨condition, hbegins⟩
  | options | optionBody => cases hconditional

/-- So was a group or an option. -/
theorem OpenAt.openOption (h : OpenAt cs here frames gap) (hf : f ∈ frames)
    (hconditional : f.isConditional = false) :
    BeginsWith (cs.drop f.openedAt) .openOptions ∨
      ∃ attributes, BeginsWith (cs.drop f.openedAt) (.openOption attributes) := by
  obtain ⟨tag, htag, hbegins⟩ := h.opened hf
  obtain ⟨block, nodes, openedAt⟩ := f
  cases htag with
  | conditional => cases hconditional
  | options => exact .inl hbegins
  | optionBody => exact .inr ⟨_, hbegins⟩

theorem OpenAt.openOptions (h : OpenAt cs here frames gap) {index : Nat}
    {closed : List (Choice Node)} {nodes : List Node}
    (hf : ⟨.options index closed, nodes, offset⟩ ∈ frames) :
    BeginsWith (cs.drop offset) .openOptions := by
  obtain ⟨tag, htag, hbegins⟩ := h.opened hf
  cases htag
  exact hbegins

/-- A tag that is refused is refused at a place of that kind. -/
theorem OpenAt.pointsAt_of_refuses {tag : Tag} (h : OpenAt cs here frames gap)
    (hbegins : BeginsWith (cs.drop here) tag) (hrefuses : Refuses frames here tag fault) :
    fault.cause.PointsAt cs frames here fault.offset := by
  cases hrefuses with
  | strayContent hcontent hgroup => exact ⟨rfl, hgroup, tag, hcontent, hbegins⟩
  | noThenBranch hnone => exact ⟨rfl, hbegins, hnone⟩
  | noConditional hnone => exact ⟨rfl, hbegins, hnone⟩
  | overGroup hframes hf =>
    have hmem := hframes ▸ List.mem_cons_self
    exact .inl ⟨_, hmem, rfl, hf, h.openOption hmem hf⟩
  | overConditional _ hframes hf =>
    have hmem := hframes ▸ List.mem_cons_self
    exact ⟨_, hmem, rfl, hf, h.openIf hmem hf⟩
  | noOption hgroup => exact .inr (.inl ⟨rfl, hbegins, hgroup⟩)
  | noGroup hframes => exact .inr (.inr ⟨rfl, hbegins, hframes⟩)
  | overOption hframes hf =>
    have hmem := hframes ▸ List.mem_cons_self
    have hconditional := isConditional_of_isOption hf
    exact .inl ⟨_, hmem, rfl, hconditional, h.openOption hmem hconditional⟩
  | emptyGroup hframes =>
    exact ⟨h.openOptions (hframes ▸ List.mem_cons_self), _, _, _, hframes⟩
  | outsideGroup hgroup => exact ⟨rfl, hgroup, _, hbegins⟩
  | @attributes attributes fault hgroup hattributes =>
    have hkind := isOfAttributes_of_readOptionAttributes hattributes
    cases fault with
    | missingClose | outsideGroup | emptyGroup | strayText | strayContent => cases hkind
    | _ => exact ⟨rfl, .inr ⟨attributes, hbegins, hattributes⟩⟩
  | bareOption => exact ⟨rfl, .inl ⟨hbegins, rfl⟩⟩

/-- What is wrong is said of a place of its kind, unless it is text astray. -/
theorem OpenAt.pointsAt (h : OpenAt cs here frames gap) (hfails : Fails cs frames here gap fault)
    (hcause : fault.cause ≠ .invalidOptionTag .strayText) :
    fault.cause.PointsAt cs frames here fault.offset := by
  cases hfails with
  | refused hbegins _ hrefuses => exact h.pointsAt_of_refuses hbegins hrefuses
  | stray => exact absurd rfl hcause
  | endless hstops =>
    generalize hrest : cs.drop here = rest at hstops
    cases hstops with
    | braces hopen => exact ⟨_, hrest, hopen⟩
    | brackets hopen hlooks => exact ⟨rfl, _, hrest, hlooks, hopen⟩
  | @unclosed f outer hover hframes =>
    have hmem : f ∈ frames := hframes ▸ List.mem_cons_self
    cases hf : f.isConditional with
    | true => exact ⟨f, hmem, rfl, hf, h.openIf hmem hf⟩
    | false => exact .inl ⟨f, hmem, rfl, hf, h.openOption hmem hf⟩

/-- At a place of any kind stands the mark of a tag. -/
theorem OptionFault.PointsAt.startsMark {fault : OptionFault}
    (h : fault.PointsAt cs frames here offset) : startsMark (cs.drop offset) = true := by
  cases fault with
  | missingClose =>
    obtain ⟨-, after, hrest, -, -⟩ := h
    rw [hrest]
    rfl
  | outsideGroup =>
    obtain ⟨-, -, attributes, hbegins⟩ := h
    exact hbegins.startsMark
  | emptyGroup => exact h.1.startsMark
  | strayText => exact h.elim
  | strayContent =>
    obtain ⟨-, -, tag, -, hbegins⟩ := h
    exact hbegins.startsMark
  | _ =>
    obtain ⟨-, ⟨hbegins, -⟩ | ⟨attributes, hbegins, -⟩⟩ := h
    · exact hbegins.startsMark
    · exact hbegins.startsMark

theorem TemplateCause.PointsAt.startsMark {cause : TemplateCause}
    (h : cause.PointsAt cs frames here offset) : startsMark (cs.drop offset) = true := by
  cases cause with
  | unterminatedVariable =>
    obtain ⟨after, hrest, -⟩ := h
    rw [hrest]
    rfl
  | unclosedConditional =>
    obtain ⟨-, -, -, -, condition, hbegins⟩ := h
    exact hbegins.startsMark
  | unexpectedElse => exact h.2.1.startsMark
  | unmatchedEndIf => exact h.2.1.startsMark
  | unclosedOptionGroup =>
    obtain ⟨-, -, -, -, hbegins | ⟨attributes, hbegins⟩⟩ | ⟨-, hbegins, -⟩ | ⟨-, hbegins, -⟩ := h
    · exact hbegins.startsMark
    · exact hbegins.startsMark
    · exact hbegins.startsMark
    · exact hbegins.startsMark
  | invalidOptionTag => exact OptionFault.PointsAt.startsMark h

end

/-! ## 2. Lines and columns -/

section

variable {text : String} {e : TemplateError} {position : Position}

theorem read_eq_error :
    Template.read text = .error e ↔ ∃ offset,
      readTemplate text.toList = .error ⟨offset, e.cause⟩ ∧
        e.position = Position.ofOffset text.toList offset := by
  obtain ⟨position, cause⟩ := e
  unfold Template.read
  dsimp only
  cases hread : readTemplate text.toList with
  | ok nodes => simp
  | error fault =>
    obtain ⟨offset, first⟩ := fault
    simp only [Except.error.injEq, TemplateError.mk.injEq, TemplateFault.mk.injEq]
    constructor
    · rintro ⟨rfl, rfl⟩
      exact ⟨offset, ⟨rfl, rfl⟩, rfl⟩
    · rintro ⟨offset, ⟨rfl, rfl⟩, rfl⟩
      exact ⟨rfl, rfl⟩

/-- A text that is refused is refused at the mark of the tag at fault: the line counts the line feeds in
front of it, and the column the characters since the last one. -/
theorem mark_of_read_error (hread : Template.read text = .error e)
    (hcause : e.cause ≠ .invalidOptionTag .strayText) :
    ∃ offset here frames gap,
      startsMark (text.toList.drop offset) = true ∧
      e.position = ⟨(text.toList.take offset).count '\n' + 1,
        ((text.toList.take offset).reverse.takeWhile (· != '\n')).length + 1⟩ ∧
      OpenAt text.toList here frames gap ∧
      Fails text.toList frames here gap ⟨offset, e.cause⟩ ∧
      e.cause.PointsAt text.toList frames here offset := by
  obtain ⟨offset, hfault, hposition⟩ := read_eq_error.1 hread
  obtain ⟨here, frames, gap, hopen, hfails⟩ := readTemplate_eq_error_iff.1 hfault
  have hpoints := hopen.pointsAt hfails hcause
  rw [Position.ofOffset, Position.after_eq] at hposition
  exact ⟨offset, here, frames, gap, hpoints.startsMark, hposition, hopen, hfails, hpoints⟩

/-- Two conditionals and the end of one, in the second line and the third. -/
def lopsided : String :=
  "été\nsœur \x7b\x7b#if x\x7d\x7d\n\x7b\x7b#if y\x7d\x7dé\x7b\x7b/if\x7d\x7d"

/-- The first one is left open, and it begins behind five characters of its line. -/
theorem mark_of_read_error_lopsided :
    Template.read lopsided = .error ⟨⟨2, 6⟩, .unclosedConditional⟩ ∧
      ∃ offset here frames gap,
        startsMark (lopsided.toList.drop offset) = true ∧
        (⟨2, 6⟩ : Position) = ⟨(lopsided.toList.take offset).count '\n' + 1,
          ((lopsided.toList.take offset).reverse.takeWhile (· != '\n')).length + 1⟩ ∧
        OpenAt lopsided.toList here frames gap ∧
        Fails lopsided.toList frames here gap ⟨offset, .unclosedConditional⟩ ∧
        TemplateCause.unclosedConditional.PointsAt lopsided.toList frames here offset := by
  refine ⟨?hread, mark_of_read_error ?hread fun h => ?hcause⟩
  case hread => decide +kernel
  case hcause => cases h

/-! ## 3. Text astray -/

/-- The literal text `stray` stands directly inside a group, behind `before` and in front of a tag, and
it is not blank. -/
def Strays (cs before stray : List Char) : Prop :=
  ∃ frames rest tag, cs = before ++ stray ++ rest ∧
    OpenAt cs (before ++ stray).length frames stray ∧ insideGroup frames = true ∧
      allBlank stray = false ∧ BeginsWith rest tag ∧ tag ≠ .bareOption

theorem readTemplate_strayText_iff {cs : List Char} {offset : Nat} :
    readTemplate cs = .error ⟨offset, .invalidOptionTag .strayText⟩ ↔
      ∃ before stray, Strays cs before stray ∧ offset = before.length := by
  rw [readTemplate_eq_error_iff]
  constructor
  · rintro ⟨here, frames, gap, hopen, hfails⟩
    generalize hfault : (⟨offset, _⟩ : TemplateFault) = fault at hfails
    cases hfails with
    | refused hbegins hplaced hrefuses =>
      cases hrefuses <;> cases hfault
      next hattributes => cases isOfAttributes_of_readOptionAttributes hattributes
    | @stray tag hbegins hbare hgroup hblank =>
      cases hfault
      obtain ⟨before, hcs, rfl⟩ := hopen.behind_gap
      exact ⟨before, gap, ⟨frames, _, tag, hcs, hopen, hgroup, hblank, hbegins, hbare⟩, by simp⟩
    | endless hstops =>
      cases hfault
      generalize cs.drop offset = rest at hstops
      cases hstops
    | unclosed =>
      split at hfault <;> cases hfault
  · rintro ⟨before, stray, ⟨frames, rest, tag, rfl, hopen, hgroup, hblank, hbegins, hbare⟩, rfl⟩
    refine ⟨_, frames, stray, hopen, ?_⟩
    have hrest : (before ++ stray ++ rest).drop (before ++ stray).length = rest :=
      List.drop_left
    have hlength : before.length = (before ++ stray).length - stray.length := by simp
    rw [hlength]
    exact .stray (by rwa [hrest]) hbare hgroup hblank

/-- Text astray is reported at its beginning, blanks included. -/
theorem read_strayText_iff :
    Template.read text = .error ⟨position, .invalidOptionTag .strayText⟩ ↔
      ∃ before stray, Strays text.toList before stray ∧ position = Position.after before := by
  rw [read_eq_error]
  constructor
  · rintro ⟨offset, hfault, hposition⟩
    obtain ⟨before, stray, hstrays, rfl⟩ := readTemplate_strayText_iff.1 hfault
    obtain ⟨-, rest, -, hcs, -⟩ := id hstrays
    refine ⟨before, stray, hstrays, hposition.trans ?_⟩
    rw [Position.ofOffset, hcs, List.append_assoc, List.take_left]
  · rintro ⟨before, stray, hstrays, rfl⟩
    obtain ⟨-, rest, -, hcs, -⟩ := id hstrays
    refine ⟨before.length, readTemplate_strayText_iff.2 ⟨before, stray, hstrays, rfl⟩, ?_⟩
    rw [Position.ofOffset, hcs, List.append_assoc, List.take_left]

theorem Strays.ne_nil {cs before stray : List Char} (h : Strays cs before stray) : stray ≠ [] := by
  obtain ⟨-, -, -, -, -, -, hblank, -, -⟩ := h
  rintro rfl
  cases hblank

theorem Strays.startsBlank_drop {cs before stray : List Char} (h : Strays cs before stray) :
    startsBlank (cs.drop before.length) = startsBlank stray := by
  obtain ⟨c, stray, rfl⟩ := List.exists_cons_of_ne_nil h.ne_nil
  obtain ⟨-, rest, -, rfl, -⟩ := h
  rw [List.append_assoc, List.drop_left]
  rfl

/-- The blanks in front of text astray move its place. -/
theorem Strays.after_eq_iff {cs before stray : List Char} (h : Strays cs before stray) :
    Position.after before = Position.after (before ++ stray.takeWhile isBlank) ↔
      startsBlank stray = false := by
  obtain ⟨c, stray, rfl⟩ := List.exists_cons_of_ne_nil h.ne_nil
  constructor
  · intro hafter
    have hnil := Position.eq_nil_of_after_append hafter.symm
    cases hc : isBlank c with
    | false => exact hc
    | true =>
      rw [List.takeWhile_cons_of_pos hc] at hnil
      cases hnil
  · intro hc
    have hnil : (c :: stray).takeWhile isBlank = [] :=
      List.takeWhile_cons_of_neg (by simpa [startsBlank] using hc)
    rw [hnil, List.append_nil]

theorem Strays.position_eq {before stray : List Char}
    (h : Strays text.toList before stray)
    (hread : Template.read text = .error ⟨position, .invalidOptionTag .strayText⟩) :
    position = Position.after before := by
  have hagain := read_strayText_iff.2 ⟨before, stray, h, rfl⟩
  rw [hread, Except.error.injEq, TemplateError.mk.injEq] at hagain
  exact hagain.1

/-- Where a text is refused for text astray, there is some, and the position is the place of its first
character that is not blank exactly if no blank stands in front of that one. -/
theorem strayText_at_text_iff
    (hread : Template.read text = .error ⟨position, .invalidOptionTag .strayText⟩) :
    (∃ before stray, Strays text.toList before stray) ∧
      ∀ before stray, Strays text.toList before stray →
        position = Position.after before ∧
          (position = Position.after (before ++ stray.takeWhile isBlank) ↔
            startsBlank stray = false) := by
  obtain ⟨before, stray, hstrays, -⟩ := read_strayText_iff.1 hread
  refine ⟨⟨before, stray, hstrays⟩, fun before stray hstrays => ?_⟩
  have hposition := hstrays.position_eq hread
  refine ⟨hposition, ?_⟩
  rw [hposition]
  exact hstrays.after_eq_iff

/-- A group with text behind its option. -/
def trailing : String :=
  "[[options]]\n[[option title=\"a\"]]x[[/option]]y [[/options]]"

theorem strayText_at_text_iff_trailing :
    Template.read trailing = .error ⟨⟨2, 33⟩, .invalidOptionTag .strayText⟩ ∧
      (∃ before stray, Strays trailing.toList before stray) ∧
        ∀ before stray, Strays trailing.toList before stray →
          (⟨2, 33⟩ : Position) = Position.after before ∧
            ((⟨2, 33⟩ : Position) = Position.after (before ++ stray.takeWhile isBlank) ↔
              startsBlank stray = false) := by
  refine ⟨?hread, strayText_at_text_iff ?hread⟩
  decide +kernel

/-- A group with text in front of its option, in a line of its own. -/
def indented : String :=
  "[[options]]\n  stray[[option title=\"a\"]]x[[/option]][[/options]]"

/-- The text astray stands in the second line, but the line feed in front of it in the first. -/
theorem not_strayText_at_text :
    ¬ ∀ (text : String) (position : Position),
      Template.read text = .error ⟨position, .invalidOptionTag .strayText⟩ →
        ∃ before stray, Strays text.toList before stray ∧
          position = Position.after (before ++ stray.takeWhile isBlank) := by
  intro h
  have hread : Template.read indented = .error ⟨⟨1, 12⟩, .invalidOptionTag .strayText⟩ := by
    decide +kernel
  obtain ⟨before, stray, hstrays, hposition⟩ := h indented ⟨1, 12⟩ hread
  rw [hstrays.position_eq hread, hstrays.after_eq_iff] at hposition
  -- but at the offset that is reported stands a blank
  have hoffset := readTemplate_strayText_iff.2 ⟨before, stray, hstrays, rfl⟩
  have hfault : readTemplate indented.toList = .error ⟨11, .invalidOptionTag .strayText⟩ := by
    decide +kernel
  rw [hfault, Except.error.injEq, TemplateFault.mk.injEq] at hoffset
  have hblank : startsBlank (indented.toList.drop 11) = true := by decide +kernel
  rw [hoffset.1, hstrays.startsBlank_drop, hposition] at hblank
  cases hblank

end

end SeededText
