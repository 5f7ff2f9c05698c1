import SeededText.Proofs.Expansion.Parts
import SeededText.Proofs.Expansion.Runaways
import SeededText.Proofs.Expansion.Verbatim

/-!
# Marks with nothing to expand

An expansion takes a value for one that may go on for ever when the value holds a mark, without
reading it.  Reading decides more: double brackets that are never closed and double braces around
something that is no name are plain text.  So the marks are coarser than what there is to expand.
Every value with something to expand has a mark, but a value may have marks and nothing to expand
(`isStray`).

Opening such a value changes nothing in its text.  It is cut off all the same where a limit is
reached, and its variable reported as running away.  A variable may have other values that are
reported rightly, so this is said of each value by itself: where a stray text is drawn at all, it is
cut off under some limits (`Request.Draws.exists_cutsText`).
-/

namespace SeededText

/-! ## 1. Texts -/

/-- Something in the text is to be expanded, or the text is no template. -/
def expands (text : String) : Bool :=
  match Template.read text with
  | .ok template => !template.isStatic
  | .error _ => true

/-- There is a mark in the text, but nothing in it is to be expanded. -/
def isStray (text : String) : Bool :=
  hasMark text && !expands text

section

variable {text : String}

theorem expands_eq_false_iff :
    expands text = false ↔ ∃ template, Template.read text = .ok template ∧
      template.isStatic = true := by
  unfold expands
  cases Template.read text <;> simp

theorem hasMark_of_expands (h : expands text = true) : hasMark text = true := by
  by_contra hmark
  have hstatic : expands text = false :=
    expands_eq_false_iff.2 ⟨_, read_of_no_mark (Bool.eq_false_iff.2 hmark), isStatic_plainNodes text⟩
  rw [hstatic] at h
  cases h

theorem isStray_of_hasMark (hmark : hasMark text = true) (h : expands text = false) :
    isStray text = true := by
  rw [isStray, hmark, h]
  rfl

theorem hasMark_of_isStray (h : isStray text = true) : hasMark text = true := by
  rw [isStray, Bool.and_eq_true] at h
  exact h.1

theorem isStray_eq_false_iff : isStray text = false ↔ (hasMark text = true → expands text = true) := by
  unfold isStray
  cases hasMark text <;> simp

/-- A stray text is read as a template, and walking that template is writing the text. -/
theorem walk_of_isStray (h : isStray text = true) :
    ∃ template, Template.read text = .ok template ∧
      ∀ (s : Setting) (expand : String → Step), ∃ events,
        walkNodes s expand template.nodes = .emit events ∧
          Trace.text events = text ∧ Trace.problems events = [] := by
  rw [isStray, Bool.and_eq_true, Bool.not_eq_true'] at h
  obtain ⟨template, hread, hstatic⟩ := expands_eq_false_iff.1 h.2
  exact ⟨template, hread, walk_of_isStatic hread hstatic⟩

end

/-! ## 2. Variations -/

/-- The variable is reported as running away only if something is to be expanded in one of its values,
or one of them is no template. -/
def Request.ReportsRightly (r : Request) (limits : Limits) (seed : String) (index : Nat)
    (name : String) : Prop :=
  (∃ limit, .maxRecursionExceeded name limit ∈ (r.variation limits seed index).problems) →
    ∃ text, r.catalog.Offers r.context name text ∧ expands text = true

/-- A reference to the variable is cut off at a stray text. -/
def Request.StraysAway (r : Request) (limits : Limits) (seed : String) (index : Nat)
    (name : String) : Prop :=
  ∃ text past level agenda tally,
    r.CutsOff limits seed index name text past level agenda tally ∧ isStray text = true

/-- A reference to the variable is met, and the text is drawn for it. -/
def Request.Draws (r : Request) (limits : Limits) (seed : String) (index : Nat)
    (name text : String) : Prop :=
  ∃ past level agenda tally,
    Moves (r.setting limits seed index) (r.start limits) past
      ⟨⟨level, .variable name⟩ :: agenda, tally⟩ ∧
    (r.setting limits seed index).pickText (tally.nextKey (.variable name)) name = .ok text

/-- A reference to the variable for which the text is drawn is cut off. -/
def Request.CutsText (r : Request) (limits : Limits) (seed : String) (index : Nat)
    (name text : String) : Prop :=
  ∃ past level agenda tally, r.CutsOff limits seed index name text past level agenda tally

section

variable {r : Request} {limits : Limits} {seed name text : String} {index : Nat}

/-- Where a variable runs away, a text that is offered has something to expand, or a stray text is
cut off. -/
theorem Request.RunsAway.expands_or_strays (h : r.RunsAway limits seed index name) :
    (∃ text, r.catalog.Offers r.context name text ∧ expands text = true) ∨
      r.StraysAway limits seed index name := by
  obtain ⟨text, past, level, agenda, tally, hcut⟩ := h
  cases hexpands : expands text with
  | true => exact .inl ⟨text, hcut.offers, hexpands⟩
  | false =>
    exact .inr ⟨text, past, level, agenda, tally, hcut, isStray_of_hasMark hcut.mark hexpands⟩

theorem Request.StraysAway.runsAway (h : r.StraysAway limits seed index name) :
    r.RunsAway limits seed index name := by
  obtain ⟨text, past, level, agenda, tally, hcut, -⟩ := h
  exact ⟨text, past, level, agenda, tally, hcut⟩

theorem reportsRightly_of_strays :
    r.ReportsRightly limits seed index name ↔
      (r.StraysAway limits seed index name →
        ∃ text, r.catalog.Offers r.context name text ∧ expands text = true) := by
  rw [Request.ReportsRightly, reported_iff_runsAway]
  constructor
  · exact fun hrightly hstrays => hrightly hstrays.runsAway
  · intro hstrays hruns
    rcases hruns.expands_or_strays with hexpands | hstray
    · exact hexpands
    · exact hstrays hstray

/-- A text with a mark is cut off where it is drawn, if the budget is what was spent by then. -/
theorem Request.Draws.exists_cutsText (h : r.Draws limits seed index name text)
    (hmark : hasMark text = true) : ∃ limits', r.CutsText limits' seed index name text := by
  obtain ⟨past, level, agenda, tally, hmoves, hpick⟩ := h
  have hbudget := openings_add_budget hmoves
  have hstart : (r.start limits).tally.Resumes r.MayUse (.start past.openings) :=
    ⟨⟨fun _ _ => rfl, fun _ _ => Iff.rfl⟩, Nat.le.intro hbudget⟩
  obtain ⟨after, hmoves', hafter⟩ :=
    hmoves.resume rfl (reachesAll_start r limits) hstart (Nat.le_refl _)
  have hreach := (hmoves.reaches rfl (reachesAll_start r limits)).head
  refine ⟨{ limits with maxExpansions := past.openings }, past, level, agenda, after, hmoves', ?_,
    hmark, .inr (Nat.le_refl _)⟩
  rw [hafter.nextKey _ ⟨_, hreach, rfl⟩]
  exact hpick

/-- A text with nothing to expand is never cut off, whatever the limits are, if and only if it is not
stray or never drawn. -/
theorem forall_not_cutsText_iff (hexpands : expands text = false) :
    (∀ limits seed index, ¬ r.CutsText limits seed index name text) ↔
      (isStray text = true → ∀ limits seed index, ¬ r.Draws limits seed index name text) := by
  constructor
  · intro hnever hstray limits seed index hdraws
    obtain ⟨limits', hcuts⟩ := hdraws.exists_cutsText (hasMark_of_isStray hstray)
    exact hnever limits' seed index hcuts
  · rintro hstray limits seed index ⟨past, level, agenda, tally, hcut⟩
    exact hstray (isStray_of_hasMark hcut.mark hexpands) limits seed index
      ⟨past, level, agenda, tally, hcut.reached, hcut.drawn⟩

/-- Without levels the first reference is cut off if the only text of its variable has a mark. -/
theorem cutsOff_of_no_levels {rest : List Node} (htemplate : r.template.nodes = .variable name :: rest)
    (honly : ∀ other, r.catalog.Offers r.context name other ↔ other = text)
    (hmark : hasMark text = true) (hlevels : limits.maxRecursionDepth = 0) :
    r.CutsOff limits seed index name text [] 0 (atLevel 0 rest) (.start limits.maxExpansions) where
  reached := by
    have hstart : r.start limits
        = ⟨⟨0, .variable name⟩ :: atLevel 0 rest, .start limits.maxExpansions⟩ := by
      rw [Request.start, htemplate]
      rfl
    rw [hstart]
    exact .refl _
  drawn := Catalog.Offers.pickText ((honly text).2 rfl) (fun other => (honly other).1) _
  mark := hmark
  limit := .inl (Nat.le_of_eq hlevels)

/-- A reference to a variable with an only text is reported rightly under all limits if and only if
that text is not stray. -/
theorem reportsRightly_iff_not_stray {rest : List Node}
    (htemplate : r.template.nodes = .variable name :: rest)
    (honly : ∀ other, r.catalog.Offers r.context name other ↔ other = text) :
    (∀ limits seed index, r.ReportsRightly limits seed index name) ↔ isStray text = false := by
  constructor
  · intro hrightly
    refine isStray_eq_false_iff.2 fun hmark => ?_
    have hcut := @cutsOff_of_no_levels r ⟨0, 1, 0⟩ "" name text 0 rest htemplate honly hmark rfl
    obtain ⟨other, hoffers, hexpands⟩ :=
      hrightly ⟨0, 1, 0⟩ "" 0 (reported_iff_runsAway.2 ⟨_, _, _, _, _, hcut⟩)
    rwa [(honly other).1 hoffers] at hexpands
  · intro hstray limits seed index
    rw [Request.ReportsRightly, reported_iff_runsAway]
    rintro ⟨other, past, level, agenda, tally, hcut⟩
    obtain rfl := (honly other).1 hcut.offers
    exact ⟨other, hcut.offers, isStray_eq_false_iff.1 hstray hcut.mark⟩

end

/-- Of every variable: if it is reported as running away, one of its values has a mark, and every text
with something to expand has one.  It is reported rightly if and only if something is to be expanded
in one of its values wherever a stray text of it is cut off; so with an only text, under all limits,
if and only if that text is not stray.

Of every value, whatever other values its variable has: a variable is reported where a value of it is
cut off, and one with nothing to expand never is, under all limits, if and only if it is not stray or
is never drawn.  A stray text would come out the same if it was opened. -/
theorem reportsRightly_iff (r : Request) (name : String) :
    (∀ limits seed index,
      ((∃ limit, .maxRecursionExceeded name limit ∈ (r.variation limits seed index).problems) →
        ∃ text, r.catalog.Offers r.context name text ∧ hasMark text = true) ∧
      (r.ReportsRightly limits seed index name ↔ (r.StraysAway limits seed index name →
        ∃ text, r.catalog.Offers r.context name text ∧ expands text = true))) ∧
    (∀ text rest, r.template.nodes = .variable name :: rest →
      (∀ other, r.catalog.Offers r.context name other ↔ other = text) →
        ((∀ limits seed index, r.ReportsRightly limits seed index name) ↔ isStray text = false)) ∧
    (∀ limits seed index,
      (∃ limit, .maxRecursionExceeded name limit ∈ (r.variation limits seed index).problems) ↔
        ∃ text, r.CutsText limits seed index name text) ∧
    (∀ text, expands text = false →
      ((∀ limits seed index, ¬ r.CutsText limits seed index name text) ↔
        (isStray text = true → ∀ limits seed index, ¬ r.Draws limits seed index name text))) ∧
    ∀ text, (expands text = true → hasMark text = true) ∧
      (isStray text = true → ∃ template, Template.read text = .ok template ∧
        ∀ (s : Setting) (expand : String → Step), ∃ events,
          walkNodes s expand template.nodes = .emit events ∧
            Trace.text events = text ∧ Trace.problems events = []) := by
  refine ⟨fun limits seed index => ⟨?_, reportsRightly_of_strays⟩,
    fun text rest => reportsRightly_iff_not_stray, fun limits seed index => reported_iff_runsAway,
    fun text => forall_not_cutsText_iff, fun text => ⟨hasMark_of_expands, walk_of_isStray⟩⟩
  rw [reported_iff_runsAway]
  rintro ⟨text, past, level, agenda, tally, hcut⟩
  exact ⟨text, hcut.offers, hcut.mark⟩

/-- A variable whose only value stands in double brackets. -/
def signpost : Request where
  template := ⟨[.variable "sign"]⟩
  catalog := Catalog.empty.insertValid ⟨"sign", none, [⟨"[[note]]", 1, none⟩]⟩ (by decide)
  context := .empty

/-- The same with a value besides that has something to expand. -/
def crossing : Request where
  template := ⟨[.variable "sign"]⟩
  catalog := Catalog.empty.insertValid
    ⟨"sign", none, [⟨"[[note]]", 1, none⟩, ⟨"\x7b\x7btown\x7d\x7d", 2, none⟩]⟩ (by decide)
  context := .empty

theorem isStray_note : isStray "[[note]]" = true := by
  decide +kernel

theorem offers_signpost (text : String) :
    signpost.catalog.Offers signpost.context "sign" text ↔ text = Candidate.text ⟨"[[note]]", 1, none⟩ :=
  offers_of_single rfl rfl admits_none

theorem draws_crossing : crossing.Draws .default "seed" 2 "sign" "[[note]]" :=
  ⟨[], 0, [], .start Limits.default.maxExpansions, .refl _, by decide +kernel⟩

/-- The value has nothing to expand, and yet the variable is reported.  Where another value has
something to expand, the variable is reported rightly, but not for the value. -/
theorem reportsRightly_iff_signpost :
    (¬ ∀ limits seed index, signpost.ReportsRightly limits seed index "sign") ∧
    (∀ limits seed index, crossing.ReportsRightly limits seed index "sign") ∧
    ¬ ∀ limits seed index, ¬ crossing.CutsText limits seed index "sign" "[[note]]" := by
  refine ⟨fun hrightly => ?_, fun limits seed index => ?_, fun hnever => ?_⟩
  · have hstray := ((reportsRightly_iff signpost "sign").2.1 _ [] rfl offers_signpost).1 hrightly
    rw [isStray_note] at hstray
    cases hstray
  · exact fun _ => ⟨_, ⟨_, _, rfl, .tail _ (.head _), admits_none, rfl⟩, by decide +kernel⟩
  · have hstatic : expands "[[note]]" = false := by decide +kernel
    have hdrawn := ((reportsRightly_iff crossing "sign").2.2.2.1 _ hstatic).1 hnever isStray_note
    exact hdrawn _ _ _ draws_crossing

theorem not_reportsRightly_signpost :
    .maxRecursionExceeded "sign" 0 ∈ (signpost.variation ⟨0, 100, 1024⟩ "s" 0).problems ∧
      ¬ signpost.ReportsRightly ⟨0, 100, 1024⟩ "s" 0 "sign" := by
  have hcut : signpost.CutsOff ⟨0, 100, 1024⟩ "s" 0 "sign" _ [] 0 _ _ :=
    cutsOff_of_no_levels rfl offers_signpost (by decide) rfl
  have hreported := mem_problems_iff_runsAway.2 ⟨⟨_, _, _, _, _, hcut⟩, rfl⟩
  refine ⟨hreported, fun hrightly => ?_⟩
  obtain ⟨text, hoffers, hexpands⟩ := hrightly ⟨0, hreported⟩
  have hstray := isStray_note
  rw [(offers_signpost text).1 hoffers] at hexpands
  simp [isStray, hexpands] at hstray

end SeededText
