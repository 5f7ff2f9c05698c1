import SeededText.Text.Blank

/-!
# Pieces between separators

`splitAtEach` goes through a text from left to right.  Where its pieces stand can be said without
going through it: a piece holds no character of the class, and on both sides of it is one, or an end
of the text (`mem_splitAtEach`).  The words of a text are the pieces between blanks that are not
empty.
-/

namespace SeededText.Text

/-- The piece stands in the text, on either side an end of the text or a character of the class. -/
def StandsBetween (p : Char → Bool) (piece cs : List Char) : Prop :=
  ∃ before after, cs = before ++ (piece ++ after) ∧ (∀ c ∈ before.getLast?, p c = true) ∧
    ∀ c ∈ after.head?, p c = true

section

variable {p : Char → Bool} {cs piece before after first : List Char} {c : Char}

theorem splitAtEach_of_free (h : ∀ c ∈ cs, p c = false) : splitAtEach p cs = [cs] := by
  induction cs with
  | nil => rfl
  | cons c cs ih =>
    obtain ⟨hc, hcs⟩ := List.forall_mem_cons.1 h
    simp [splitAtEach, hc, ih hcs]

/-- Around a character of the class a text is cut independently. -/
theorem splitAtEach_append (h : p c = true) (before after : List Char) :
    splitAtEach p (before ++ c :: after) = splitAtEach p before ++ splitAtEach p after := by
  induction before with
  | nil => simp [splitAtEach, h]
  | cons b before ih =>
    rw [List.cons_append, splitAtEach, splitAtEach, ih]
    split
    · rfl
    · cases hpieces : splitAtEach p before with
      | nil =>
        -- there is always a piece
        cases before with
        | nil => cases hpieces
        | cons d before =>
          rw [splitAtEach] at hpieces
          split at hpieces
          · cases hpieces
          · split at hpieces <;> cases hpieces
      | cons piece pieces => rfl

/-- No character of a text is of the class, or there is a first one. -/
theorem free_or_first (p : Char → Bool) (cs : List Char) :
    (∀ c ∈ cs, p c = false) ∨
      ∃ first c rest, cs = first ++ c :: rest ∧ (∀ d ∈ first, p d = false) ∧ p c = true := by
  induction cs with
  | nil => exact .inl fun c hc => absurd hc List.not_mem_nil
  | cons c cs ih =>
    cases hc : p c with
    | true => exact .inr ⟨[], c, cs, rfl, fun d hd => absurd hd List.not_mem_nil, hc⟩
    | false =>
      rcases ih with hfree | ⟨first, d, rest, rfl, hfirst, hd⟩
      · exact .inl (List.forall_mem_cons.2 ⟨hc, hfree⟩)
      · exact .inr ⟨c :: first, d, rest, rfl, List.forall_mem_cons.2 ⟨hc, hfirst⟩, hd⟩

theorem StandsBetween.behind (h : StandsBetween p piece cs) (hc : p c = true) (first : List Char) :
    StandsBetween p piece (first ++ c :: cs) := by
  obtain ⟨before, after, rfl, hbefore, hafter⟩ := h
  refine ⟨first ++ c :: before, after, by simp, ?_, hafter⟩
  intro d hd
  cases before with
  | nil =>
    obtain rfl : c = d := by simpa using hd
    exact hc
  | cons b before =>
    refine hbefore d ?_
    simpa using hd

theorem standsBetween_of_mem (h : piece ∈ splitAtEach p cs) :
    (∀ c ∈ piece, p c = false) ∧ StandsBetween p piece cs := by
  induction hlength : cs.length using Nat.strongRecOn generalizing cs with
  | ind n ih =>
    rcases free_or_first p cs with hfree | ⟨first, c, rest, rfl, hfirst, hc⟩
    · rw [splitAtEach_of_free hfree, List.mem_singleton] at h
      rw [h]
      exact ⟨hfree, [], [], by simp, by simp, by simp⟩
    · rw [splitAtEach_append hc, splitAtEach_of_free hfirst, List.singleton_append,
        List.mem_cons] at h
      rcases h with rfl | hlater
      · exact ⟨hfirst, [], c :: rest, rfl, by simp, by simp [hc]⟩
      · have hlt : rest.length < n := by
          rw [← hlength]
          simp only [List.length_append, List.length_cons]
          omega
        obtain ⟨hpiece, hstands⟩ := ih rest.length hlt hlater rfl
        exact ⟨hpiece, hstands.behind hc first⟩

theorem mem_splitAtEach_of_front (hpiece : ∀ c ∈ piece, p c = false)
    (hafter : ∀ c ∈ after.head?, p c = true) : piece ∈ splitAtEach p (piece ++ after) := by
  cases after with
  | nil => simp [splitAtEach_of_free hpiece]
  | cons c after => simp [splitAtEach_append (hafter c rfl), splitAtEach_of_free hpiece]

/-- The pieces of a text are what stands in it between characters of the class and has none. -/
theorem mem_splitAtEach :
    piece ∈ splitAtEach p cs ↔ (∀ c ∈ piece, p c = false) ∧ StandsBetween p piece cs := by
  refine ⟨standsBetween_of_mem, ?_⟩
  rintro ⟨hpiece, before, after, rfl, hbefore, hafter⟩
  have hfront := mem_splitAtEach_of_front hpiece hafter
  rcases List.eq_nil_or_concat before with rfl | ⟨front, c, rfl⟩
  · exact hfront
  · have hc : p c = true := hbefore c (by simp)
    rw [List.concat_eq_append, List.append_assoc, List.singleton_append, splitAtEach_append hc]
    exact List.mem_append_right _ hfront

end

theorem mem_words {word cs : List Char} :
    word ∈ words cs ↔ word ≠ [] ∧ (∀ c ∈ word, isBlank c = false) ∧
      StandsBetween isBlank word cs := by
  rw [words, List.mem_filter, mem_splitAtEach, and_comm]
  simp

end SeededText.Text
