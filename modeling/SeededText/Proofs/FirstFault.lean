/-!
# The first fault

Three readings in this library take a list step by step and give up at the first step that fails: the
entries of a catalog, the pieces of a template text and the attributes of an option.  Which step that
is does not depend on what the steps do, so it is said here once.
-/

namespace SeededText

variable {α β ε : Type} {step : β → α → Except ε β} {state final : β} {item : α} {items : List α}
  {fault : ε}

/-- Steps succeed with the first one, from where the others go on. -/
theorem foldlM_cons_eq_ok_iff :
    (item :: items).foldlM step state = .ok final ↔
      ∃ next, step state item = .ok next ∧ items.foldlM step next = .ok final := by
  rw [List.foldlM_cons]
  cases hstep : step state item with
  | error fault => simp [bind, Except.bind]
  | ok next => simp [bind, Except.bind]

/-- Steps fail with the fault of the first one that fails; those before it are taken. -/
theorem foldlM_eq_error_iff :
    items.foldlM step state = .error fault ↔
      ∃ before item after state', items = before ++ item :: after ∧
        before.foldlM step state = .ok state' ∧ step state' item = .error fault := by
  constructor
  · intro h
    induction items generalizing state with
    | nil => cases h
    | cons item items ih =>
      rw [List.foldlM_cons] at h
      cases hstep : step state item with
      | error first =>
        rw [hstep] at h
        cases h
        exact ⟨[], item, items, state, rfl, rfl, hstep⟩
      | ok next =>
        rw [hstep] at h
        obtain ⟨before, later, after, state', rfl, htaken, hfails⟩ := ih h
        refine ⟨item :: before, later, after, state', rfl, ?_, hfails⟩
        rw [List.foldlM_cons, hstep]
        exact htaken
  · rintro ⟨before, item, after, state', rfl, htaken, hfails⟩
    rw [List.foldlM_append, htaken]
    show (item :: after).foldlM step state' = .error fault
    rw [List.foldlM_cons, hfails]
    rfl

end SeededText
