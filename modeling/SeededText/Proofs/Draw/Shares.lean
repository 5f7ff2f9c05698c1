import SeededText.Catalog.Entry
import SeededText.Proofs.Double.Arithmetic
import SeededText.Proofs.Draw.Weights

/-!
# A draw's share of the total

A draw from nought up to one takes its share of the total, and the first running total above the
share is what it picks.  In exact arithmetic there is always one, since the share is less than the
total and the last running total is the total.  With doubles the share is rounded, and a total in the
range where doubles have fewer places can get all of itself back.  Then no running total is above the
share, and the last candidate is picked (`Lifted`); a total above the least normal double is never
reached.

A larger draw has no smaller share, so it never picks an earlier candidate.
-/

namespace SeededText.Draw

open Double

/-! ## 1. Shares -/

/-- The least double that has all its places, 2⁻¹⁰²². -/
def leastNormal : Float :=
  Float.ofBits 0x0010000000000000

/-- Rounding gives the draw all of a small total, and no running total is more than that. -/
structure Lifted (weights : List Float) (draw : Float) : Prop where
  whole : (draw * total weights == total weights) = true
  small : total weights ≤ leastNormal
  none : ∀ j < weights.length, ¬ draw * total weights < runningTotal weights j

/-- The index is picked for its running total, or as the last one. -/
inductive Picked (weights : List Float) (draw : Float) (i : Nat) : Prop where
  | first : FirstExceeds (draw * total weights) weights i → Picked weights draw i
  | last : Lifted weights draw → i + 1 = weights.length → Picked weights draw i

theorem value_leastNormal : value leastNormal = 2 ^ (-1022 : ℤ) := by
  have hunpack : leastNormal.toModel.unpack
      = .finite .positive (2 ^ 52) (-1074) (by decide) := rfl
  rw [value_of_positive hunpack, ← two_zpow_add]
  rfl

section

variable {weights : List Float} {draw later : Float}

/-- A draw that lies from nought up to one is worth that. -/
theorem value_draw (hlow : 0 ≤ draw) (hhigh : draw < 1) :
    draw.isFinite = true ∧ 0 ≤ value draw ∧ value draw < 1 := by
  have hzero : (0 : Float).isFinite = true := rfl
  have hone : (1 : Float).isFinite = true := rfl
  have hfinite := isFinite_of_le_of_lt hzero hone hlow hhigh
  rw [le_iff_value hzero hfinite, value_zero] at hlow
  rw [lt_iff_value hfinite hone, value_one] at hhigh
  exact ⟨hfinite, hlow, hhigh⟩

theorem zero_le_of_lt (hlow : 0 ≤ draw) (hhigh : draw < 1) (hlt : draw < later) : 0 ≤ later :=
  le_of_lt (lt_of_le_of_lt rfl (value_draw hlow hhigh).1 hlow hlt)

/-- A share that no running total exceeds is the whole, and the whole is small. -/
theorem lifted_of_none_above (hne : weights ≠ []) (hpos : 0 < total weights)
    (hfinite : (total weights).isFinite = true) (hlow : 0 ≤ draw) (hhigh : draw < 1)
    (hnone : ∀ j < weights.length, ¬ draw * total weights < runningTotal weights j) :
    Lifted weights draw := by
  obtain ⟨hdraw, hlow, hhigh⟩ := value_draw hlow hhigh
  have hpos := value_pos hfinite hpos
  have hshare := (roundsAt_mul hdraw hfinite hlow hhigh hpos).1
  have hlast : ¬ draw * total weights < total weights := by
    have hlen := List.length_pos_iff.2 hne
    have hnot := hnone (weights.length - 1) (by omega)
    rwa [runningTotal_last hne] at hnot
  rw [lt_iff_value hshare hfinite, not_lt] at hlast
  refine ⟨(beq_iff_value hshare hfinite).2 ?_, ?_, hnone⟩
  · exact le_antisymm (value_mul_le hdraw hfinite hlow hhigh hpos) hlast
  · have hnormal : leastNormal.isFinite = true := rfl
    rw [le_iff_value hfinite hnormal, value_leastNormal]
    by_contra hlarge
    exact absurd (value_mul_lt hdraw hfinite hlow hhigh (not_le.1 hlarge)) (not_lt.2 hlast)

/-- The share of a draw of nought is less than the first weight. -/
theorem share_lt_first {weight : Float} (hweight : 0 < weight)
    (hpos : 0 < total (weight :: weights)) (hfinite : (total (weight :: weights)).isFinite = true)
    (hlow : 0 ≤ draw) (hhigh : draw < 1) (hdraw : (draw == 0) = true) :
    draw * total (weight :: weights) < runningTotal (weight :: weights) 0 := by
  obtain ⟨hfinite', hlow, hhigh⟩ := value_draw hlow hhigh
  have hzero : (0 : Float).isFinite = true := rfl
  rw [beq_iff_value hfinite' hzero, value_zero] at hdraw
  obtain ⟨hshare, t, hrounds⟩ :=
    roundsAt_mul hfinite' hfinite hlow hhigh (value_pos hfinite hpos)
  have hle : draw * total (weight :: weights) ≤ 0 := by
    rw [le_iff_value hshare hzero, value_zero]
    rw [hdraw, zero_mul] at hrounds
    have hnought : (0 : ℚ) ≤ (0 : ℕ) * 2 ^ t := by simp
    simpa using hrounds.le_of_le hnought
  have hfirst : (0 : Float) < runningTotal (weight :: weights) 0 := zero_lt_zero_add hweight
  exact lt_of_le_of_lt hshare hzero hle hfirst

/-- A running total above the share of a larger draw is above the share of this one. -/
theorem share_lt_of_lt {target : Float} (hpos : 0 < total weights)
    (hfinite : (total weights).isFinite = true) (hlow : 0 ≤ draw) (hhigh : draw < 1)
    (hlt : draw < later) (hlater : later < 1) (htarget : later * total weights < target) :
    draw * total weights < target := by
  obtain ⟨hlater', hlow', hhigh'⟩ := value_draw (zero_le_of_lt hlow hhigh hlt) hlater
  obtain ⟨hdraw, hlow, hhigh⟩ := value_draw hlow hhigh
  have hpos := value_pos hfinite hpos
  rw [lt_iff_value hdraw hlater'] at hlt
  have hshare := (roundsAt_mul hdraw hfinite hlow hhigh hpos).1
  have hshare' := (roundsAt_mul hlater' hfinite hlow' hhigh' hpos).1
  have hle : draw * total weights ≤ later * total weights := by
    rw [le_iff_value hshare hshare']
    exact value_mul_mono hdraw hlater' hfinite hlow hlt hhigh' hpos
  exact lt_of_le_of_lt hshare hshare' hle htarget

end

/-! ## 2. What a draw picks -/

section

variable {weights : List Float} {draw later : Float} {i j : Nat}

theorem Picked.lt_length (h : Picked weights draw i) : i < weights.length := by
  cases h with
  | first hfirst => exact hfirst.inside
  | last _ hlast => omega

/-- Nothing is picked behind a candidate whose running total exceeds the share. -/
theorem Picked.le_of_lt (h : Picked weights draw i) (hj : j < weights.length)
    (habove : draw * total weights < runningTotal weights j) : i ≤ j := by
  cases h with
  | first hfirst => exact Nat.not_lt.1 fun hlt => hfirst.first j hlt habove
  | last hlifted _ => exact absurd habove (hlifted.none j hj)

theorem exists_picked (hne : weights ≠ []) (hpos : ∀ weight ∈ weights, 0 < weight)
    (hfinite : (total weights).isFinite = true) (hlow : 0 ≤ draw) (hhigh : draw < 1) :
    ∃ i, weightedIndex weights draw = some i ∧ Picked weights draw i := by
  rcases weightedIndex_cases hne hpos draw with ⟨i, hpick, hfirst⟩ | ⟨hpick, hnone⟩
  · exact ⟨i, hpick, .first hfirst⟩
  · have htotal := zero_lt_total hne hpos
    have hlen := List.length_pos_iff.2 hne
    exact ⟨_, hpick, .last (lifted_of_none_above hne htotal hfinite hlow hhigh hnone) (by omega)⟩

/-- A draw from nought up to one picks the first candidate whose running total exceeds its share, or
the last one if the share is rounded up to a small total.  Nought picks the first candidate, and a
larger draw picks none before it. -/
theorem weightedIndex_of_draw (hne : weights ≠ [])
    (hvalid : ∀ weight ∈ weights, validWeight weight = true)
    (hfinite : (total weights).isFinite = true) (hlow : 0 ≤ draw) (hhigh : draw < 1) :
    ∃ i, weightedIndex weights draw = some i ∧ Picked weights draw i ∧
      ((draw == 0) = true → i = 0) ∧
      ∀ later, draw < later → later < 1 → ∃ j, weightedIndex weights later = some j ∧ i ≤ j := by
  have hpos : ∀ weight ∈ weights, 0 < weight := fun weight hmem => by
    have hweight := hvalid weight hmem
    rw [validWeight, Bool.and_eq_true, decide_eq_true_iff] at hweight
    exact hweight.2
  have htotal : 0 < total weights := zero_lt_total hne hpos
  obtain ⟨i, hpick, hpicked⟩ := exists_picked hne hpos hfinite hlow hhigh
  refine ⟨i, hpick, hpicked, fun hzero => ?_, fun later hlt hlater => ?_⟩
  · obtain ⟨weight, rest, rfl⟩ := List.exists_cons_of_ne_nil hne
    have hfirst := share_lt_first (hpos weight List.mem_cons_self) htotal hfinite hlow hhigh hzero
    exact Nat.le_zero.1 (hpicked.le_of_lt (Nat.succ_pos _) hfirst)
  · have hlow' := zero_le_of_lt hlow hhigh hlt
    obtain ⟨j, hpick', hpicked'⟩ := exists_picked hne hpos hfinite hlow' hlater
    refine ⟨j, hpick', ?_⟩
    cases hpicked' with
    | first hfirst =>
      exact hpicked.le_of_lt hfirst.inside
        (share_lt_of_lt htotal hfinite hlow hhigh hlt hlater hfirst.above)
    | last _ hlast =>
      have := hpicked.lt_length
      omega

end

/-- The first two of these add up to a little less than eight tenths. -/
def tenths : List Float :=
  [0.1, 0.7, 0.2]

theorem weightedIndex_of_draw_tenths :
    (∀ weight ∈ tenths, validWeight weight = true) ∧ (total tenths).isFinite = true ∧
      weightedIndex tenths 0.8 = some 2 ∧ Picked tenths 0.8 2 ∧
      ∀ later, 0.8 < later → later < 1 →
        ∃ j, weightedIndex tenths later = some j ∧ 2 ≤ j := by
  have hvalid : ∀ weight ∈ tenths, validWeight weight = true := by decide +kernel
  have hfinite : (total tenths).isFinite = true := by decide +kernel
  have hpick : weightedIndex tenths 0.8 = some 2 := by decide +kernel
  obtain ⟨i, hi, hpicked, -, hlater⟩ := @weightedIndex_of_draw tenths 0.8 (by decide) hvalid hfinite
    (by decide +kernel) (by decide +kernel)
  cases hi.symm.trans hpick
  exact ⟨hvalid, hfinite, hpick, hpicked, hlater⟩

/-- Two weights that have no finite total. -/
def vast : List Float :=
  [1e308, 1e308]

/-- A weight so small that three quarters of it are rounded up to all of it. -/
def grain : List Float :=
  [5e-324]

/-- At both ends of the range of doubles a share may be exceeded by no running total.  A total that
is infinite has no share for a draw of nought, and then the last candidate is picked. -/
theorem not_firstExceeds_vast_grain :
    ((∀ weight ∈ vast, validWeight weight = true) ∧ weightedIndex vast 0 = some 1 ∧
        ∀ i, ¬ FirstExceeds (0 * total vast) vast i) ∧
      (∀ weight ∈ grain, validWeight weight = true) ∧
        ∀ i, ¬ FirstExceeds (0.75 * total grain) grain i := by
  have hvast : ∀ i < 2, ¬ 0 * total vast < runningTotal vast i := by decide +kernel
  have hgrain : ∀ i < 1, ¬ 0.75 * total grain < runningTotal grain i := by decide +kernel
  refine ⟨⟨by decide +kernel, by decide +kernel, fun i h => ?_⟩, by decide +kernel, fun i h => ?_⟩
  · exact hvast i h.inside h.above
  · exact hgrain i h.inside h.above

end SeededText.Draw
