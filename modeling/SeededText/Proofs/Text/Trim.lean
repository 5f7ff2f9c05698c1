import SeededText.Proofs.Text.Search

/-!
# What trimming keeps

Trimming takes blanks off the ends and nothing else.  A character that is not blank stops it: what
stands before the character is trimmed at its beginning only, what stands after it at its end only.
And no doubled character appears or disappears, unless it is a blank one.
-/

namespace SeededText.Text

variable {x : Char} {cs after lead tail : List Char}

theorem ne_of_isBlank {c : Char} (hx : isBlank x = false) (hc : isBlank c = true) : x ≠ c := by
  rintro rfl
  rw [hx] at hc
  cases hc

/-! ## 1. Up to a character that is not blank -/

theorem trimStart_append_cons (hx : isBlank x = false) (cs after : List Char) :
    trimStart (cs ++ x :: after) = trimStart cs ++ x :: after := by
  induction cs with
  | nil => simp [trimStart, hx]
  | cons c cs ih =>
    by_cases hc : isBlank c = true
    · simpa [trimStart, List.dropWhile_cons, hc] using ih
    · simp [trimStart, hc]

theorem trimEnd_cons (hx : isBlank x = false) (cs : List Char) :
    trimEnd (x :: cs) = x :: trimEnd cs := by
  cases h : trimEnd cs <;> simp [trimEnd, h, hx]

theorem trimEnd_append_cons (hx : isBlank x = false) (cs after : List Char) :
    trimEnd (cs ++ x :: after) = cs ++ x :: trimEnd after := by
  induction cs with
  | nil => exact trimEnd_cons hx after
  | cons c cs ih =>
    rw [List.cons_append, trimEnd, ih]
    cases cs <;> rfl

/-- Trimming a text at its end leaves what stands before it alone, unless the text is blank. -/
theorem trimEnd_append (h : trimEnd after ≠ []) (cs : List Char) :
    trimEnd (cs ++ after) = cs ++ trimEnd after := by
  induction cs with
  | nil => rfl
  | cons c cs ih =>
    rw [List.cons_append, trimEnd, ih]
    cases hrest : cs ++ trimEnd after with
    | nil => exact absurd (List.append_eq_nil_iff.1 hrest).2 h
    | cons d ds => rw [List.cons_append, hrest]

theorem trim_append_cons (hx : isBlank x = false) (cs after : List Char) :
    trim (cs ++ x :: after) = trimStart cs ++ x :: trimEnd after := by
  rw [trim, trimStart_append_cons hx, trimEnd_append_cons hx]

theorem trim_cons (hx : isBlank x = false) (cs : List Char) : trim (x :: cs) = x :: trimEnd cs :=
  trim_append_cons hx [] cs

/-! ## 2. Blanks at the ends -/

theorem trimEnd_append_of_allBlank (h : allBlank tail = true) (cs : List Char) :
    trimEnd (cs ++ tail) = trimEnd cs := by
  induction cs with
  | nil => exact (trimEnd_eq_nil_iff tail).2 h
  | cons c cs ih => rw [List.cons_append, trimEnd, ih, trimEnd]

theorem allBlank_append (hlead : allBlank lead = true) (htail : allBlank tail = true) :
    allBlank (lead ++ tail) = true := by
  rw [allBlank, List.all_append, Bool.and_eq_true]
  exact ⟨hlead, htail⟩

theorem trim_of_allBlank (h : allBlank cs = true) : trim cs = [] := by
  have hstart := trimStart_append_of_allBlank h []
  rw [List.append_nil] at hstart
  rw [trim, hstart]
  rfl

/-- Blanks around a text are trimmed away with its own. -/
theorem trim_between (hlead : allBlank lead = true) (htail : allBlank tail = true)
    (cs : List Char) : trim (lead ++ cs ++ tail) = trim cs := by
  rw [List.append_assoc, trim, trimStart_append_of_allBlank hlead]
  by_cases h : trimStart cs = []
  · have hsplit := List.takeWhile_append_dropWhile (p := isBlank) (l := cs)
    rw [show cs.dropWhile isBlank = [] from h, List.append_nil] at hsplit
    have hcs : allBlank cs = true := by
      rw [← hsplit]
      exact List.all_takeWhile
    rw [trimStart_append_of_allBlank hcs]
    exact (trim_of_allBlank htail).trans (trim_of_allBlank hcs).symm
  · rw [trimStart_append h, trimEnd_append_of_allBlank htail, trim]

theorem exists_trim_append (cs : List Char) :
    ∃ lead tail, allBlank lead = true ∧ allBlank tail = true ∧ cs = lead ++ trim cs ++ tail := by
  obtain ⟨tail, htail, hcs⟩ := exists_trimEnd_append (trimStart cs)
  refine ⟨cs.takeWhile isBlank, tail, ?_, htail, ?_⟩
  · exact List.all_takeWhile
  · rw [List.append_assoc, trim, ← hcs]
    exact List.takeWhile_append_dropWhile.symm

/-- A text with no blank in front has nothing to trim there. -/
theorem trimStart_of_startsBlank (h : startsBlank cs = false) : trimStart cs = cs := by
  cases cs with
  | nil => rfl
  | cons c cs => exact List.dropWhile_cons_of_neg (by simpa [startsBlank] using h)

theorem trimEnd_trimEnd (cs : List Char) : trimEnd (trimEnd cs) = trimEnd cs := by
  obtain ⟨tail, htail, hcs⟩ := exists_trimEnd_append cs
  rw [← trimEnd_append_of_allBlank htail (trimEnd cs), ← hcs]

/-- A trimmed text does not begin with a blank. -/
theorem trimStart_trim (cs : List Char) : trimStart (trim cs) = trim cs := by
  cases h : trimStart cs with
  | nil => rw [trim, h]; rfl
  | cons c rest =>
    have hc : isBlank c = false := by simpa [h, startsBlank] using startsBlank_trimStart cs
    rw [trim, h, trimEnd_cons hc]
    exact trimStart_append_cons hc [] _

theorem trim_trim (cs : List Char) : trim (trim cs) = trim cs := by
  rw [trim, trimStart_trim, trim, trimEnd_trimEnd]

/-- A blank in front of a text is trimmed away. -/
theorem trim_cons_blank (hx : isBlank x = true) (cs : List Char) : trim (x :: cs) = trim cs := by
  simp [trim, trimStart, hx]

/-- A text between a character that is not blank and a trimmed one is trimmed. -/
theorem trim_append_trimmed (hx : isBlank x = false) (hne : after ≠ []) (htrim : trim after = after)
    (cs : List Char) : trim (x :: cs ++ after) = x :: cs ++ after := by
  have hend : trimEnd after = after := by
    rw [← htrim, trim, trimEnd_trimEnd]
  rw [List.cons_append, trim_cons hx, trimEnd_append (by rwa [hend]), hend]

theorem trim_of_not_blank (h : ∀ c ∈ cs, isBlank c = false) : trim cs = cs := by
  cases cs with
  | nil => rfl
  | cons c cs =>
    rw [trim_cons (h c List.mem_cons_self), List.cons.injEq]
    refine ⟨rfl, ?_⟩
    have hcs : ∀ d ∈ cs, isBlank d = false := fun d hd => h d (List.mem_cons_of_mem c hd)
    clear h
    induction cs with
    | nil => rfl
    | cons d ds ih =>
      rw [trimEnd_cons (hcs d List.mem_cons_self), ih fun e he => hcs e (List.mem_cons_of_mem d he)]

/-! ## 3. Doubled characters -/

theorem not_mem_of_allBlank (hx : isBlank x = false) (h : allBlank cs = true) : x ∉ cs := by
  intro hmem
  rw [List.all_eq_true.1 h x hmem] at hx
  cases hx

theorem not_doubled_of_allBlank (hx : isBlank x = false) (h : allBlank cs = true) :
    ¬ [x, x] <:+: cs := fun hdouble =>
  not_mem_of_allBlank hx h (mem_of_doubled hdouble)

theorem head?_ne_of_allBlank (hx : isBlank x = false) (h : allBlank cs = true) :
    cs.head? ≠ some x := fun hhead =>
  not_mem_of_allBlank hx h (List.mem_of_head? hhead)

theorem getLast?_ne_of_allBlank (hx : isBlank x = false) (h : allBlank cs = true) :
    cs.getLast? ≠ some x := fun hlast =>
  not_mem_of_allBlank hx h (List.mem_of_getLast? hlast)

theorem doubled_blank_append (hx : isBlank x = false) (h : allBlank lead = true)
    (cs : List Char) : [x, x] <:+: lead ++ cs ↔ [x, x] <:+: cs := by
  rw [doubled_append fun hlast => absurd hlast (getLast?_ne_of_allBlank hx h)]
  exact or_iff_right (not_doubled_of_allBlank hx h)

theorem doubled_trimStart (hx : isBlank x = false) (cs : List Char) :
    [x, x] <:+: trimStart cs ↔ [x, x] <:+: cs := by
  have hlead : allBlank (cs.takeWhile isBlank) = true := List.all_takeWhile
  rw [← doubled_blank_append hx hlead, trimStart, List.takeWhile_append_dropWhile]

theorem doubled_append_blank (hx : isBlank x = false) (h : allBlank tail = true)
    (cs : List Char) : [x, x] <:+: cs ++ tail ↔ [x, x] <:+: cs := by
  rw [doubled_append fun _ => head?_ne_of_allBlank hx h]
  exact or_iff_left (not_doubled_of_allBlank hx h)

theorem doubled_trim (hx : isBlank x = false) (cs : List Char) :
    [x, x] <:+: trim cs ↔ [x, x] <:+: cs := by
  obtain ⟨lead, tail, hlead, htail, hcs⟩ := exists_trim_append cs
  calc [x, x] <:+: trim cs
      ↔ [x, x] <:+: lead ++ trim cs := (doubled_blank_append hx hlead _).symm
    _ ↔ [x, x] <:+: lead ++ trim cs ++ tail := (doubled_append_blank hx htail _).symm
    _ ↔ [x, x] <:+: cs := by rw [← hcs]

end SeededText.Text
