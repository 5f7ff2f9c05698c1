import SeededText.Proofs.Double.Rounding

/-!
# The numbers that are rounded to a double

`RoundsAt` leaves open which way a tie goes.  With ties to the even multiple of the place a number is
rounded to one double and no other, and the numbers that are rounded to the same one are an interval
around it (`readsAs_iff`).  It reaches half a place to either side, but only a quarter of one down
from a power of two, since the doubles below that are twice as near.  The ends belong to the interval
if the mantissa is even.
-/

namespace SeededText.Double

/-- The number is rounded to `p`: to the nearest whole multiple of its last place, and to the even one
if two are as near. -/
def ReadsAs (v p : ℚ) : Prop :=
  ∃ (t : ℤ) (r : ℕ), RoundsAt t v p ∧ p = r * 2 ^ t ∧ (|p - v| = 2 ^ t / 2 → Even r)

/-- The doubles below `m * 2 ^ q` are twice as near as those above. -/
def IsNarrow (m : ℕ) (q : ℤ) : Prop :=
  m = 2 ^ 52 ∧ -1074 < q

instance (m : ℕ) (q : ℤ) : Decidable (IsNarrow m q) :=
  inferInstanceAs (Decidable (_ ∧ _))

/-- How many quarters of a place it is down to the end of the interval. -/
def margin (m : ℕ) (q : ℤ) : ℕ :=
  if IsNarrow m q then 1 else 2

/-- The number stands in the interval around `m * 2 ^ q`. -/
structure InInterval (m : ℕ) (q : ℤ) (v : ℚ) : Prop where
  low : (4 * m - margin m q) * 2 ^ (q - 2) ≤ v
  high : v ≤ (4 * m + 2) * 2 ^ (q - 2)
  ends : v = (4 * m - margin m q) * 2 ^ (q - 2) ∨ v = (4 * m + 2) * 2 ^ (q - 2) → Even m

section

variable {m : ℕ} {q t : ℤ} {v : ℚ}

theorem two_zpow_eq_four_mul (q : ℤ) : (2 : ℚ) ^ q = 4 * 2 ^ (q - 2) := by
  rw [zpow_sub₀ two_ne_zero]
  norm_num
  ring

theorem two_zpow_eq_two_mul (q : ℤ) : (2 : ℚ) ^ q = 2 * 2 ^ (q - 1) := by
  rw [zpow_sub_one₀ two_ne_zero]
  ring

theorem two_zpow_pred_eq_two_mul (q : ℤ) : (2 : ℚ) ^ (q - 1) = 2 * 2 ^ (q - 2) := by
  rw [two_zpow_eq_two_mul, sub_sub, one_add_one_eq_two]

theorem mul_two_zpow_eq_four_mul (m : ℕ) (q : ℤ) : (m : ℚ) * 2 ^ q = 4 * (m * 2 ^ (q - 2)) := by
  rw [two_zpow_eq_four_mul]
  ring

theorem margin_of_isNarrow (h : IsNarrow m q) : margin m q = 1 :=
  if_pos h

theorem margin_of_not_isNarrow (h : ¬ IsNarrow m q) : margin m q = 2 :=
  if_neg h

theorem margin_le (m : ℕ) (q : ℤ) : (margin m q : ℚ) ≤ 2 := by
  unfold margin
  split <;> norm_num

theorem margin_pos (m : ℕ) (q : ℤ) : (0 : ℚ) < margin m q := by
  unfold margin
  split <;> norm_num

theorem IsNarrow.even (h : IsNarrow m q) : Even m := by
  rw [h.1]
  decide

/-- What is rounded to the double is not rounded at a coarser place. -/
theorem RoundsAt.place_le (h : RoundsAt t v (m * 2 ^ q)) (hplace : IsPlace ((m : ℚ) * 2 ^ q) q) :
    t ≤ q := by
  by_contra hgt
  have hleast := hplace.least
  have hlow : (2 : ℚ) ^ (t + (52 : ℕ)) ≤ v := h.place.above.resolve_left (by omega)
  have hround : (2 : ℚ) ^ (t + (52 : ℕ)) ≤ m * 2 ^ q := by
    rw [two_zpow_add] at hlow ⊢
    exact h.ge_of_ge hlow
  have hpow : (2 : ℚ) ^ (q + 53) ≤ 2 ^ (t + (52 : ℕ)) := two_zpow_le (by push_cast; omega)
  linarith [hplace.below]

/-- It is rounded at a finer place only from below a power of two. -/
theorem RoundsAt.isNarrow_of_lt (h : RoundsAt t v (m * 2 ^ q))
    (hplace : IsPlace ((m : ℚ) * 2 ^ q) q) (hlt : t < q) :
    IsNarrow m q ∧ t = q - 1 ∧ v < m * 2 ^ q := by
  have hleast := h.place.least
  have hnormal : (2 : ℚ) ^ (q + 52) ≤ m * 2 ^ q := hplace.above.resolve_left (by omega)
  have hbelow : v < 2 ^ (t + (53 : ℕ)) := h.place.below
  have hround : (m : ℚ) * 2 ^ q ≤ 2 ^ (t + (53 : ℕ)) := by
    rw [two_zpow_add] at hbelow ⊢
    exact h.le_of_le hbelow.le
  have ht : t = q - 1 := by
    by_contra hne
    have hpow : (2 : ℚ) ^ (t + (53 : ℕ)) < 2 ^ (q + 52) :=
      zpow_lt_zpow_right₀ one_lt_two (by push_cast; omega)
    linarith
  have hpow : (2 : ℚ) ^ (t + (53 : ℕ)) = 2 ^ (q + (52 : ℕ)) := by
    rw [ht]
    congr 1
    push_cast
    ring
  rw [hpow] at hround hbelow
  have heq : (m : ℚ) * 2 ^ q = 2 ^ (q + (52 : ℕ)) := le_antisymm hround hnormal
  refine ⟨⟨?_, by omega⟩, ht, by rwa [heq]⟩
  rw [two_zpow_add] at heq
  exact_mod_cast mul_right_cancel₀ (two_zpow_pos q).ne' heq

/-- Half a place to either side is in the interval, where a tie is even. -/
theorem RoundsAt.inInterval (h : RoundsAt q v (m * 2 ^ q))
    (htie : |m * 2 ^ q - v| = (2 : ℚ) ^ q / 2 → Even m) : InInterval m q v := by
  have hpos := two_zpow_pos (q - 2)
  have hfour := two_zpow_eq_four_mul q
  have hvalue := mul_two_zpow_eq_four_mul m q
  obtain ⟨hdown, hup⟩ := abs_le.1 h.near
  have hhigh : v ≤ (4 * m + 2) * 2 ^ (q - 2) := by linarith
  by_cases hnarrow : IsNarrow m q
  · -- what is rounded at this place is not below the power of two
    have habove : (2 : ℚ) ^ (q + (52 : ℕ)) ≤ v :=
      h.place.above.resolve_left (by have := hnarrow.2; omega)
    rw [two_zpow_add, ← hnarrow.1] at habove
    refine ⟨?_, hhigh, fun _ => hnarrow.even⟩
    rw [margin_of_isNarrow hnarrow, Nat.cast_one]
    linarith
  · refine ⟨?_, hhigh, ?_⟩
    · rw [margin_of_not_isNarrow hnarrow, Nat.cast_two]
      linarith
    · rw [margin_of_not_isNarrow hnarrow, Nat.cast_two]
      rintro (hv | hv)
      · refine htie ?_
        rw [abs_of_nonneg (by linarith)]
        linarith
      · refine htie ?_
        rw [abs_of_nonpos (by linarith)]
        linarith

/-- Half of the place before is in the interval, down from a power of two. -/
theorem RoundsAt.inInterval_of_isNarrow (h : RoundsAt (q - 1) v (m * 2 ^ q)) (hnarrow : IsNarrow m q)
    (hlt : v < m * 2 ^ q) : InInterval m q v := by
  have hpos := two_zpow_pos (q - 2)
  have hhalf := two_zpow_pred_eq_two_mul q
  have hvalue := mul_two_zpow_eq_four_mul m q
  obtain ⟨-, hup⟩ := abs_le.1 h.near
  refine ⟨?_, by linarith, fun _ => hnarrow.even⟩
  rw [margin_of_isNarrow hnarrow, Nat.cast_one]
  linarith

theorem ReadsAs.inInterval (h : ReadsAs v (m * 2 ^ q)) (hplace : IsPlace ((m : ℚ) * 2 ^ q) q) :
    InInterval m q v := by
  obtain ⟨t, r, hrounds, hr, htie⟩ := h
  rcases (hrounds.place_le hplace).eq_or_lt with rfl | hlt
  · obtain rfl : m = r := by exact_mod_cast mul_right_cancel₀ (two_zpow_pos t).ne' hr
    exact hrounds.inInterval htie
  · obtain ⟨hnarrow, rfl, hbelow⟩ := hrounds.isNarrow_of_lt hplace hlt
    exact hrounds.inInterval_of_isNarrow hnarrow hbelow

/-- A number in the interval has the place of the double, or stands below a power of two. -/
theorem InInterval.isPlace (h : InInterval m q v) (hplace : IsPlace ((m : ℚ) * 2 ^ q) q) :
    IsPlace v q ∨ IsNarrow m q ∧ v < m * 2 ^ q := by
  obtain ⟨hleast, hmant, hnormal⟩ := isPlace_iff.1 hplace
  have hpos := two_zpow_pos (q - 2)
  have hfour := two_zpow_eq_four_mul q
  have hbelow : v < 2 ^ (q + (53 : ℕ)) := by
    rw [two_zpow_add, hfour, ← mul_assoc]
    refine lt_of_le_of_lt h.high (mul_lt_mul_of_pos_right ?_ hpos)
    exact_mod_cast (by omega : 4 * m + 2 < 2 ^ 53 * 4)
  rw [or_iff_not_imp_right, not_and, not_lt]
  intro hnarrow
  refine ⟨hleast, hbelow, ?_⟩
  rcases hleast.eq_or_lt with hsub | hq
  · exact .inl hsub.symm
  · right
    show (2 : ℚ) ^ (q + (52 : ℕ)) ≤ v
    rw [two_zpow_add]
    rcases (hnormal.resolve_left (by omega)).eq_or_lt with heq | hlt
    · rw [heq]
      exact hnarrow ⟨heq.symm, hq⟩
    · have hlow := h.low
      rw [margin_of_not_isNarrow fun hn => hlt.ne' hn.1] at hlow
      refine le_trans ?_ hlow
      rw [hfour, ← mul_assoc]
      have hmant' : ((2 ^ 52 : ℕ) : ℚ) + 1 ≤ m := by exact_mod_cast hlt
      exact mul_le_mul_of_nonneg_right (by push_cast at hmant' ⊢; linarith) hpos.le

theorem InInterval.readsAs_of_isPlace (h : InInterval m q v) (hplace : IsPlace v q) :
    ReadsAs v (m * 2 ^ q) := by
  have hpos := two_zpow_pos (q - 2)
  have hfour := two_zpow_eq_four_mul q
  have hvalue := mul_two_zpow_eq_four_mul m q
  obtain ⟨hlow, hhigh, hends⟩ := h
  have hmargin : (margin m q : ℚ) * 2 ^ (q - 2) ≤ 2 * 2 ^ (q - 2) :=
    mul_le_mul_of_nonneg_right (margin_le m q) hpos.le
  refine ⟨q, m, ⟨hplace, ⟨m, rfl⟩, abs_le.2 ⟨by linarith, by linarith⟩⟩, rfl, fun htie => ?_⟩
  by_cases hnarrow : IsNarrow m q
  · exact hnarrow.even
  · rw [margin_of_not_isNarrow hnarrow, Nat.cast_two] at hends
    rcases (abs_eq (by linarith)).1 htie with hv | hv
    · exact hends (.inl (by linarith))
    · exact hends (.inr (by linarith))

theorem InInterval.readsAs_of_isNarrow (h : InInterval m q v) (hnarrow : IsNarrow m q)
    (hlt : v < m * 2 ^ q) : ReadsAs v (m * 2 ^ q) := by
  have hpos := two_zpow_pos (q - 2)
  have hvalue := mul_two_zpow_eq_four_mul m q
  have hquarter := two_zpow_pred_eq_two_mul q
  have hlow := h.low
  rw [margin_of_isNarrow hnarrow, Nat.cast_one] at hlow
  -- a step at the place before is half as long, and the mantissa twice as large
  have hwhole : (m : ℚ) * 2 ^ q = (2 * m : ℕ) * 2 ^ (q - 1) := by
    rw [two_zpow_eq_two_mul q]
    push_cast
    ring
  have hplace : IsPlace v (q - 1) := by
    refine ⟨by have := hnarrow.2; omega, ?_, .inr ?_⟩
    · show v < 2 ^ (q - 1 + (53 : ℕ))
      rw [two_zpow_add]
      rwa [hwhole, hnarrow.1] at hlt
    · show (2 : ℚ) ^ (q - 1 + (52 : ℕ)) ≤ v
      rw [two_zpow_add, ← hnarrow.1, hquarter]
      have hm : (1 : ℚ) * 2 ^ (q - 2) ≤ m * 2 ^ (q - 2) :=
        mul_le_mul_of_nonneg_right (by rw [hnarrow.1]; norm_num) hpos.le
      linarith
  refine ⟨q - 1, 2 * m, ⟨hplace, ⟨_, hwhole⟩, ?_⟩, hwhole, fun _ => even_two_mul m⟩
  rw [abs_of_nonneg (by linarith)]
  linarith

theorem InInterval.readsAs (h : InInterval m q v) (hplace : IsPlace ((m : ℚ) * 2 ^ q) q) :
    ReadsAs v (m * 2 ^ q) := by
  rcases h.isPlace hplace with hsame | ⟨hnarrow, hlt⟩
  · exact h.readsAs_of_isPlace hsame
  · exact h.readsAs_of_isNarrow hnarrow hlt

/-- The numbers that are rounded to a double are those of its interval. -/
theorem readsAs_iff (hplace : IsPlace ((m : ℚ) * 2 ^ q) q) :
    ReadsAs v (m * 2 ^ q) ↔ InInterval m q v :=
  ⟨fun h => h.inInterval hplace, fun h => h.readsAs hplace⟩

/-- What stands between a number that is rounded to a double and the double is rounded to it too. -/
theorem ReadsAs.of_between (h : ReadsAs v (m * 2 ^ q)) (hplace : IsPlace ((m : ℚ) * 2 ^ q) q) {w : ℚ}
    (hw : v ≤ w ∧ w ≤ m * 2 ^ q ∨ m * 2 ^ q ≤ w ∧ w ≤ v) : ReadsAs w (m * 2 ^ q) := by
  rw [readsAs_iff hplace] at h ⊢
  have hpos := two_zpow_pos (q - 2)
  have hvalue := mul_two_zpow_eq_four_mul m q
  have hmargin : (0 : ℚ) < margin m q * 2 ^ (q - 2) := mul_pos (margin_pos m q) hpos
  obtain ⟨hlow, hhigh, hends⟩ := h
  rcases hw with ⟨hvw, hwp⟩ | ⟨hpw, hwv⟩
  · refine ⟨hlow.trans hvw, by linarith, ?_⟩
    rintro (hw | hw)
    · exact hends (.inl (le_antisymm (hvw.trans hw.le) hlow))
    · linarith
  · refine ⟨by linarith, hwv.trans hhigh, ?_⟩
    rintro (hw | hw)
    · linarith
    · exact hends (.inr (le_antisymm hhigh (hw.symm.le.trans hwv)))

/-- Only positive numbers are rounded to a positive double. -/
theorem ReadsAs.pos (h : ReadsAs v (m * 2 ^ q)) (hplace : IsPlace ((m : ℚ) * 2 ^ q) q) (hm : 0 < m) :
    0 < v := by
  have hlow := (h.inInterval hplace).low
  have hm' : (1 : ℚ) ≤ m := Nat.one_le_cast.2 hm
  refine lt_of_lt_of_le (mul_pos ?_ (two_zpow_pos _)) hlow
  linarith [margin_le m q]

end

end SeededText.Double
