import SeededText.Proofs.Draw.Weights
import SeededText.Proofs.Expansion.Meaning

/-!
# What is admitted and what is picked

Admission keeps what is admitted and records the conditions that cannot be read.  From a catalog's
entry a draw picks the text of an admitted value if there is one, whatever the draw is: the weights
are valid, so their total is above zero.
-/

namespace SeededText

section

variable {α : Type} {context : Context} {conditionOf : α → Option String}

theorem admits_none : Admits context none :=
  fun _ h => nomatch h

theorem admits_some {source : String} :
    Admits context (some source) ↔ decideCondition source context = .ok true := by
  simp [Admits]

theorem mem_admitted {xs : List α} {x : α} :
    x ∈ (Admission.of context conditionOf xs).admitted
      ↔ x ∈ xs ∧ Admits context (conditionOf x) := by
  induction xs with
  | nil => simp [Admission.of]
  | cons y ys ih =>
    -- what is kept of `y` and `ys` is kept of `ys`, or it is `y` itself and admitted
    have hkept : ∀ (p : Prop), (p ↔ Admits context (conditionOf y)) →
        ((p ∧ x = y) ∨ x ∈ (Admission.of context conditionOf ys).admitted
          ↔ x ∈ y :: ys ∧ Admits context (conditionOf x)) := by
      intro p hp
      rw [ih, hp, List.mem_cons]
      constructor
      · rintro (⟨hadmits, rfl⟩ | ⟨hmem, hadmits⟩)
        · exact ⟨.inl rfl, hadmits⟩
        · exact ⟨.inr hmem, hadmits⟩
      · rintro ⟨rfl | hmem, hadmits⟩
        · exact .inl ⟨hadmits, rfl⟩
        · exact .inr ⟨hmem, hadmits⟩
    cases hy : conditionOf y with
    | none =>
      have hp := hkept True (by rw [hy]; exact iff_of_true trivial admits_none)
      simpa [Admission.of, hy] using hp
    | some source =>
      cases hdecide : decideCondition source context with
      | error e =>
        have hp := hkept False (by rw [hy, admits_some, hdecide]; simp)
        simpa [Admission.of, hy, hdecide] using hp
      | ok holds =>
        have hp := hkept (holds = true) (by rw [hy, admits_some, hdecide]; simp)
        cases holds with
        | true => simpa [Admission.of, hy, hdecide] using hp
        | false => simpa [Admission.of, hy, hdecide] using hp

theorem problems_of (xs : List α) :
    (Admission.of context conditionOf xs).problems = unreadable context (xs.map conditionOf) := by
  induction xs with
  | nil => rfl
  | cons y ys ih =>
    rw [List.map_cons]
    cases hy : conditionOf y with
    | none => simpa [Admission.of, hy, unreadable, Admission.problems] using ih
    | some source =>
      cases hdecide : decideCondition source context with
      | error e => simpa [Admission.of, hy, hdecide, unreadable, Admission.problems] using ih
      | ok holds =>
        cases holds <;> simpa [Admission.of, hy, hdecide, unreadable, Admission.problems] using ih

end

/-! ## Picking -/

section

variable {catalog : Catalog} {context : Context} {name : String} {e : Entry}

theorem zero_lt_weight (hget : catalog.get? name = some e) :
    ∀ value ∈ e.values, 0 < value.weight := by
  intro value hmem
  have hvalid := (catalog.valid e (List.mem_of_find?_eq_some hget)).2 value hmem
  rw [validWeight, Bool.and_eq_true, decide_eq_true_iff] at hvalid
  exact hvalid.2

theorem exists_pickText? {candidates : List Candidate} (hne : candidates ≠ [])
    (hweight : ∀ value ∈ candidates, 0 < value.weight) (draw : Float) :
    ∃ value ∈ candidates, pickText? candidates draw = some value.text := by
  have hweights : ∀ weight ∈ candidates.map Candidate.weight, 0 < weight := by
    simpa using hweight
  obtain ⟨i, hindex, hi⟩ := Draw.exists_weightedIndex (by simpa using hne) hweights draw
  rw [List.length_map] at hi
  refine ⟨candidates[i], List.getElem_mem hi, ?_⟩
  simp [pickText?, hindex, hi]

/-- Picking for a variable fails only as the meaning does, and else gives an admitted value. -/
theorem pick_eligible (hget : catalog.get? name = some e) (material : String) :
    ((∀ value ∈ e.values, ¬ Admits context value.condition) ∧
        (catalog.eligible context name).pick name material = .error (.noEligibleValue name)) ∨
      ∃ value ∈ e.values, Admits context value.condition ∧
        (catalog.eligible context name).pick name material = .ok value.text := by
  have heligible : catalog.eligible context name = ⟨(e.admission context).malformed,
      if (e.admission context).admitted.isEmpty then .error (.noEligibleValue name)
      else .ok (e.admission context).admitted⟩ := by
    simp [Catalog.eligible, hget]
  have hadmitted : ∀ value, value ∈ (e.admission context).admitted
      ↔ value ∈ e.values ∧ Admits context value.condition := fun value => mem_admitted
  rw [heligible, Eligibility.pick]
  cases hcandidates : (e.admission context).admitted with
  | nil =>
    left
    rw [hcandidates] at hadmitted
    refine ⟨fun value hmem hadmits => ?_, rfl⟩
    exact absurd ((hadmitted value).2 ⟨hmem, hadmits⟩) List.not_mem_nil
  | cons first others =>
    right
    rw [hcandidates] at hadmitted
    obtain ⟨value, hvalue, hpick⟩ := exists_pickText? (List.cons_ne_nil first others)
      (fun value hvalue => zero_lt_weight hget value ((hadmitted value).1 hvalue).1)
      (Draw.unit material)
    obtain ⟨hmem, hadmits⟩ := (hadmitted value).1 hvalue
    refine ⟨value, hmem, hadmits, ?_⟩
    simp [hpick]

theorem malformed_eligible (hget : catalog.get? name = some e) :
    (catalog.eligible context name).malformed.map .malformedCondition
      = unreadable context (e.values.map Candidate.condition) := by
  rw [← problems_of]
  simp [Catalog.eligible, hget, Admission.problems, Entry.admission]

theorem eligible_unknown (hget : catalog.get? name = none) (context : Context) :
    catalog.eligible context name = ⟨[], .error (.unknownVariable name)⟩ := by
  simp [Catalog.eligible, hget]

/-- A draw picks a branch of a group exactly when one is admitted. -/
theorem pick_branch {α : Type} (admitted : List α) (material : String) :
    (admitted = [] ∧
        (Draw.index? material admitted.length).bind (admitted[·]?) = none) ∨
      ∃ x ∈ admitted, (Draw.index? material admitted.length).bind (admitted[·]?) = some x := by
  cases admitted with
  | nil => exact .inl ⟨rfl, rfl⟩
  | cons first others =>
    right
    have hne : (first :: others).length ≠ 0 := by simp
    obtain ⟨i, hindex, hi⟩ := Draw.exists_index? material hne
    refine ⟨(first :: others)[i], List.getElem_mem hi, ?_⟩
    rw [hindex, Option.bind_some, List.getElem?_eq_getElem hi]

end

end SeededText
