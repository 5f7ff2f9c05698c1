import SeededText.Text.Blank
import SeededText.Text.Search

/-!
# First places

`cut?` finds the first place of a pattern.  Grammars say the same without a search: `FirstAt` names
the text before the place and the text after it, and asks that no other place comes earlier.
`cut?_eq_some_iff` and `cut?_eq_none_iff` tie the two together.

The closing marks of tags are one character written twice, and for these it can be seen where a
place comes from when texts are put together: `doubled_append`.
-/

namespace SeededText.Text

/-! ## 1. The first place of a pattern -/

/-- The pattern stands between `before` and `after` in the text, and nowhere earlier. -/
structure FirstAt (pattern cs before after : List Char) : Prop where
  split : cs = before ++ pattern ++ after
  first : ∀ before' after', cs = before' ++ pattern ++ after' → before.length ≤ before'.length

/-- Two texts in front of first places of one pattern in one text are the same. -/
theorem FirstAt.unique {pattern cs before after before' after' : List Char}
    (h : FirstAt pattern cs before after) (h' : FirstAt pattern cs before' after') :
    before = before' ∧ after = after' := by
  have hlen : before.length = before'.length :=
    Nat.le_antisymm (h.first _ _ h'.split) (h'.first _ _ h.split)
  have hcs : before ++ (pattern ++ after) = before' ++ (pattern ++ after') := by
    rw [← List.append_assoc, ← h.split, h'.split, List.append_assoc]
  obtain ⟨hbefore, hrest⟩ := List.append_inj hcs hlen
  exact ⟨hbefore, List.append_cancel_left hrest⟩

theorem FirstAt.length_le {pattern cs before after : List Char}
    (h : FirstAt pattern cs before after) : after.length ≤ cs.length := by
  have hlen := congrArg List.length h.split
  simp only [List.length_append] at hlen
  omega

theorem not_stripFront?_of_eq_none {pattern cs : List Char} (h : stripFront? pattern cs = none)
    (after : List Char) : cs ≠ pattern ++ after := fun heq => by
  rw [stripFront?_eq_some_iff.2 heq] at h
  cases h

/-- Where `cut?` finds nothing the pattern stands nowhere. -/
theorem cut?_eq_none_iff {pattern cs : List Char} : cut? pattern cs = none ↔ ¬ pattern <:+: cs := by
  constructor
  · intro h
    fun_induction cut? pattern cs with
    | case1 => cases h
    | case2 hnone =>
      rintro ⟨before, after, heq⟩
      have hnil : pattern = [] := by
        cases pattern with
        | nil => rfl
        | cons => simp at heq
      subst hnil
      cases hnone
    | case3 c cs hnone ih =>
      rintro ⟨before, after, heq⟩
      rw [Option.map_eq_none_iff] at h
      cases before with
      | nil => exact not_stripFront?_of_eq_none hnone after (by simpa using heq.symm)
      | cons b before =>
        rw [List.cons_append, List.cons_append, List.cons.injEq] at heq
        exact ih h ⟨before, after, heq.2⟩
  · intro h
    cases hcut : cut? pattern cs with
    | none => rfl
    | some parts => exact absurd ⟨parts.1, parts.2, (cut?_eq_some hcut).symm⟩ h

/-- `cut?` finds the first place. -/
theorem cut?_eq_some_iff {pattern cs before after : List Char} :
    cut? pattern cs = some (before, after) ↔ FirstAt pattern cs before after := by
  have hfirst : ∀ {before after}, cut? pattern cs = some (before, after) →
      FirstAt pattern cs before after := by
    intro before after h
    refine ⟨cut?_eq_some h, ?_⟩
    fun_induction cut? pattern cs generalizing before with
    | case1 => cases h; intro _ _ _; exact Nat.zero_le _
    | case2 => cases h
    | case3 c cs hnone ih =>
      rw [Option.map_eq_some_iff] at h
      obtain ⟨⟨b, a⟩, hcut, heq⟩ := h
      cases heq
      intro before' after' hcs
      cases before' with
      | nil => exact absurd hcs (not_stripFront?_of_eq_none hnone after')
      | cons c' before' =>
        rw [List.cons_append, List.cons_append, List.cons.injEq] at hcs
        exact Nat.succ_le_succ (ih hcut before' after' hcs.2)
  constructor
  · exact hfirst
  · intro h
    cases hcut : cut? pattern cs with
    | none => exact absurd ⟨before, after, h.split.symm⟩ (cut?_eq_none_iff.1 hcut)
    | some parts =>
      obtain ⟨hbefore, hafter⟩ := (hfirst hcut).unique h
      rw [← hbefore, ← hafter]

/-- A text that holds a pattern holds it at a first place. -/
theorem exists_firstAt {pattern cs : List Char} (h : pattern <:+: cs) :
    ∃ before after, FirstAt pattern cs before after := by
  cases hcut : cut? pattern cs with
  | none => exact absurd h (cut?_eq_none_iff.1 hcut)
  | some parts => exact ⟨parts.1, parts.2, cut?_eq_some_iff.1 hcut⟩

/-! ## 2. One character written twice -/

section

variable {x c : Char} {cs a b : List Char}

theorem mem_of_doubled (h : [x, x] <:+: cs) : x ∈ cs :=
  h.subset List.mem_cons_self

theorem doubled_cons :
    [x, x] <:+: c :: cs ↔ (c = x ∧ cs.head? = some x) ∨ [x, x] <:+: cs := by
  rw [List.infix_cons_iff]
  cases cs with
  | nil => simp
  | cons d ds => simp [List.cons_prefix_cons, eq_comm]

/-- No place of a doubled character lies across a seam unless both sides show the character. -/
theorem doubled_append (h : a.getLast? = some x → b.head? ≠ some x) :
    [x, x] <:+: a ++ b ↔ [x, x] <:+: a ∨ [x, x] <:+: b := by
  induction a with
  | nil => simp
  | cons c cs ih =>
    cases cs with
    | nil =>
      have hseam : ¬ (c = x ∧ b.head? = some x) := fun ⟨hc, hb⟩ => h (by rw [hc]; rfl) hb
      rw [List.singleton_append, doubled_cons, or_iff_right hseam, doubled_cons]
      simp
    | cons d ds =>
      rw [List.cons_append, doubled_cons, ih (by simpa using h), doubled_cons (c := c),
        or_assoc]
      rfl

theorem doubled_cons_of_ne (hc : c ≠ x) : [x, x] <:+: c :: cs ↔ [x, x] <:+: cs := by
  rw [doubled_cons]
  exact or_iff_right fun h => hc h.1

/-- Another character keeps the two sides apart. -/
theorem doubled_append_cons (hc : c ≠ x) :
    [x, x] <:+: a ++ c :: b ↔ [x, x] <:+: a ∨ [x, x] <:+: b := by
  have hhead : (c :: b).head? ≠ some x := fun h => hc (Option.some.inj h)
  rw [doubled_append fun _ => hhead, doubled_cons_of_ne hc]

theorem doubled_append_of_not_mem (h : x ∉ a) : [x, x] <:+: a ++ b ↔ [x, x] <:+: b := by
  rw [doubled_append fun hlast => absurd (List.mem_of_getLast? hlast) h]
  exact or_iff_right fun hdouble => h (mem_of_doubled hdouble)

theorem doubled_concat (h : a.getLast? ≠ some x) : [x, x] <:+: a ++ [x] ↔ [x, x] <:+: a := by
  rw [doubled_append fun hlast => absurd hlast h]
  refine or_iff_left fun hx => ?_
  have hlen := hx.length_le
  simp at hlen

/-- The first place of a doubled character is known by the text before it alone. -/
theorem firstAt_doubled_iff :
    FirstAt [x, x] cs a b ↔ cs = a ++ [x, x] ++ b ∧ ¬ [x, x] <:+: a ++ [x] := by
  constructor
  · intro h
    refine ⟨h.split, ?_⟩
    rintro ⟨before, after, heq⟩
    have hlen := congrArg List.length heq
    have hle := h.first before (after ++ x :: b) (by
      rw [h.split, ← List.append_assoc, heq]
      simp)
    simp only [List.length_append, List.length_cons, List.length_nil] at hlen
    omega
  · rintro ⟨rfl, hdouble⟩
    refine ⟨rfl, fun before after heq => ?_⟩
    rw [List.append_assoc, List.append_assoc, List.append_eq_append_iff] at heq
    rcases heq with ⟨more, rfl, -⟩ | ⟨more, rfl, hmore⟩
    · simp
    · cases more with
      | nil => simp
      | cons d more =>
        -- the earlier place begins in `a`, so both its characters stand in `a ++ [x]`
        simp only [List.cons_append, List.nil_append, List.cons.injEq] at hmore
        obtain ⟨rfl, hmore⟩ := hmore
        cases more with
        | nil => exact absurd ⟨before, [], by simp⟩ hdouble
        | cons e more =>
          rw [List.cons_append, List.cons.injEq] at hmore
          obtain ⟨rfl, -⟩ := hmore
          exact absurd ⟨before, more ++ [x], by simp⟩ hdouble

end

/-- A text in which none of the marks stands does not have one of them. -/
theorem not_mem_of_all {marks cs : List Char} {x : Char} (hx : x ∈ marks)
    (h : cs.all (fun c => !marks.contains c) = true) : x ∉ cs := by
  intro hmem
  have hnot := List.all_eq_true.1 h x hmem
  simp [hx] at hnot

/-- A text is cut at a character where the character first stands. -/
theorem cut?_singleton_iff {x : Char} {cs before after : List Char} :
    cut? [x] cs = some (before, after) ↔ cs = before ++ x :: after ∧ x ∉ before := by
  rw [cut?_eq_some_iff]
  constructor
  · intro h
    refine ⟨by simpa using h.split, fun hmem => ?_⟩
    obtain ⟨b, a, rfl⟩ := List.append_of_mem hmem
    have hle := h.first b (a ++ x :: after) (by rw [h.split]; simp)
    rw [List.length_append, List.length_cons] at hle
    omega
  · rintro ⟨rfl, hnot⟩
    refine ⟨by simp, fun before' after' heq => ?_⟩
    rw [List.append_assoc, List.append_eq_append_iff] at heq
    rcases heq with ⟨more, rfl, -⟩ | ⟨more, rfl, hmore⟩
    · simp
    · cases more with
      | nil => simp
      | cons d more =>
        obtain ⟨rfl, -⟩ := List.cons.inj hmore
        simp at hnot

end SeededText.Text
