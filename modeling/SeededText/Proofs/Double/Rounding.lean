import Mathlib.Algebra.Order.Field.Power
import Mathlib.Data.Rat.Cast.Order
import Mathlib.Tactic.Linarith
import Mathlib.Tactic.Ring

/-!
# Rounding to the nearest

A double keeps 53 binary places of a number, or fewer where it would need places below the last one
there is.  So the size of a number decides the place of its last bit (`IsPlace`), and rounding
moves it to a whole multiple of that, by half the place at most (`RoundsAt`).

Nothing here asks which way ties go.  Half a place is enough to see that rounding does not cross a
number that has no bits below the place (`RoundsAt.le_of_le`), and what follows from that: rounding
keeps the order, and a number that is less than a double by a 2⁻⁵³th of it is rounded to less, unless
the double is so small that it has fewer places.
-/

namespace SeededText.Double

/-! ## 1. Places -/

/-- The exponent of the last bit that is kept of a number, if exponents had no upper end. -/
structure IsPlace (q : ℚ) (t : ℤ) : Prop where
  least : -1074 ≤ t
  below : q < 2 ^ (t + 53)
  above : t = -1074 ∨ 2 ^ (t + 52) ≤ q

section

variable {q q' p p' : ℚ} {t t' s e : ℤ} {m : ℕ}

theorem two_zpow_pos (t : ℤ) : (0 : ℚ) < 2 ^ t :=
  zpow_pos two_pos t

theorem two_zpow_le (h : s ≤ t) : (2 : ℚ) ^ s ≤ 2 ^ t :=
  zpow_le_zpow_right₀ one_le_two h

theorem two_zpow_add (t : ℤ) (n : ℕ) : (2 : ℚ) ^ (t + n) = (2 ^ n : ℕ) * 2 ^ t := by
  rw [zpow_add₀ two_ne_zero, zpow_natCast, mul_comm]
  norm_cast

/-- The last bit of a larger number does not stand further down. -/
theorem IsPlace.mono (h : IsPlace q t) (h' : IsPlace q' t') (hle : q ≤ q') : t ≤ t' := by
  by_contra hlt
  rcases h.above with hleast | habove
  · have := h'.least
    omega
  · have hpow : (2 : ℚ) ^ (t' + 53) ≤ 2 ^ (t + 52) := two_zpow_le (by omega)
    linarith [h'.below]

theorem IsPlace.unique (h : IsPlace q t) (h' : IsPlace q t') : t = t' :=
  le_antisymm (h.mono h' le_rfl) (h'.mono h le_rfl)

/-- What a mantissa and an exponent must be for the exponent to be the place of their product. -/
theorem isPlace_iff :
    IsPlace ((m : ℚ) * 2 ^ e) e ↔ -1074 ≤ e ∧ m < 2 ^ 53 ∧ (e = -1074 ∨ 2 ^ 52 ≤ m) := by
  have hbelow : (m : ℚ) * 2 ^ e < 2 ^ (e + (53 : ℕ)) ↔ m < 2 ^ 53 := by
    rw [two_zpow_add, mul_lt_mul_iff_left₀ (two_zpow_pos e), Nat.cast_lt]
  have habove : (2 : ℚ) ^ (e + (52 : ℕ)) ≤ m * 2 ^ e ↔ 2 ^ 52 ≤ m := by
    rw [two_zpow_add, mul_le_mul_iff_left₀ (two_zpow_pos e), Nat.cast_le]
  constructor
  · rintro ⟨hleast, hlt, hle⟩
    exact ⟨hleast, hbelow.1 hlt, hle.imp_right habove.1⟩
  · rintro ⟨hleast, hlt, hle⟩
    exact ⟨hleast, hbelow.2 hlt, hle.imp_right habove.2⟩

/-- A whole multiple of a power of two is one of every lower power. -/
theorem exists_multiple (h : t ≤ s) (k : ℕ) : ∃ j : ℕ, (k : ℚ) * 2 ^ s = j * 2 ^ t := by
  obtain ⟨n, rfl⟩ := Int.le.dest h
  refine ⟨k * 2 ^ n, ?_⟩
  rw [two_zpow_add, Nat.cast_mul, mul_assoc]

/-- Multiples of a power that are less than the power apart do not differ. -/
theorem multiple_le {r k : ℕ} (h : (r : ℚ) * 2 ^ t < k * 2 ^ t + 2 ^ t) :
    (r : ℚ) * 2 ^ t ≤ k * 2 ^ t := by
  rw [← add_one_mul, mul_lt_mul_iff_left₀ (two_zpow_pos t)] at h
  rw [mul_le_mul_iff_left₀ (two_zpow_pos t), Nat.cast_le]
  exact Nat.lt_succ_iff.1 (by exact_mod_cast h)

/-! ## 2. The nearest multiple -/

/-- A whole multiple of the last place, no further away than half of it. -/
structure RoundsAt (t : ℤ) (q p : ℚ) : Prop where
  place : IsPlace q t
  whole : ∃ r : ℕ, p = r * 2 ^ t
  near : |p - q| ≤ 2 ^ t / 2

/-- Rounding up does not cross a multiple of the last place. -/
theorem RoundsAt.le_of_le (h : RoundsAt t q p) {k : ℕ} (hk : q ≤ k * 2 ^ t) : p ≤ k * 2 ^ t := by
  obtain ⟨r, rfl⟩ := h.whole
  have hnear := (abs_le.1 h.near).2
  exact multiple_le (by linarith [two_zpow_pos t])

/-- Rounding down does not either. -/
theorem RoundsAt.ge_of_ge (h : RoundsAt t q p) {k : ℕ} (hk : k * 2 ^ t ≤ q) : k * 2 ^ t ≤ p := by
  obtain ⟨r, rfl⟩ := h.whole
  have hnear := (abs_le.1 h.near).1
  exact multiple_le (by linarith [two_zpow_pos t])

/-- Rounding does not cross a number with no bits below its own place. -/
theorem RoundsAt.le_of_isPlace (h : RoundsAt t q p) (hw : IsPlace ((m : ℚ) * 2 ^ e) e)
    (hle : q ≤ m * 2 ^ e) : p ≤ m * 2 ^ e := by
  obtain ⟨j, hj⟩ := exists_multiple (h.place.mono hw hle) m
  rw [hj] at hle ⊢
  exact h.le_of_le hle

/-- Rounding keeps the order. -/
theorem RoundsAt.mono (h : RoundsAt t q p) (h' : RoundsAt t' q' p') (hlt : q < q') : p ≤ p' := by
  rcases (h.place.mono h'.place hlt.le).eq_or_lt with rfl | hplace
  · -- two multiples of one place are the same or a whole place apart
    obtain ⟨r, rfl⟩ := h.whole
    obtain ⟨r', rfl⟩ := h'.whole
    have hup := (abs_le.1 h.near).2
    have hdown := (abs_le.1 h'.near).1
    exact multiple_le (by linarith)
  · -- a power of two stands between the numbers, and neither is rounded across it
    have hleast := h.place.least
    have habove : (2 : ℚ) ^ (t' + 52) ≤ q' := h'.place.above.resolve_left (by omega)
    have hbelow : q ≤ 2 ^ (t' + 52) := h.place.below.le.trans (two_zpow_le (by omega))
    obtain ⟨k, hk⟩ := exists_multiple (show t ≤ t' + 52 by omega) 1
    obtain ⟨k', hk'⟩ := exists_multiple (show t' ≤ t' + 52 by omega) 1
    rw [Nat.cast_one, one_mul] at hk hk'
    calc p ≤ k * 2 ^ t := h.le_of_le (hk ▸ hbelow)
      _ = 2 ^ (t' + 52) := hk.symm
      _ = k' * 2 ^ t' := hk'
      _ ≤ p' := h'.ge_of_ge (hk' ▸ habove)

/-- A number that is less than a double by a 2⁻⁵³th of it is rounded to less. -/
theorem RoundsAt.lt_of_isPlace (h : RoundsAt t q p) (hw : IsPlace ((m : ℚ) * 2 ^ e) e)
    (hq : q ≤ m * 2 ^ e - m * 2 ^ (e - 53)) (hnormal : (2 : ℚ) ^ (-1022 : ℤ) < m * 2 ^ e) :
    p < m * 2 ^ e := by
  have hle : q ≤ m * 2 ^ e := hq.trans (sub_le_self _ (by positivity))
  have hte := h.place.mono hw hle
  refine lt_of_le_of_ne (h.le_of_isPlace hw hle) fun hp => ?_
  -- the number would have moved by half its place or more
  have hmoved : (m : ℚ) * 2 ^ (e - 53) ≤ 2 ^ t / 2 := by
    linarith [(abs_le.1 h.near).2]
  have hm : (m : ℚ) * 2 ^ e ≤ 2 ^ (t + 52) := by
    have hsplit : (2 : ℚ) ^ e = 2 ^ (e - 53) * 2 ^ 53 := by
      rw [← zpow_natCast, ← zpow_add₀ two_ne_zero]
      congr 1
      omega
    have htsplit : (2 : ℚ) ^ (t + 52) = 2 ^ t / 2 * 2 ^ 53 := by
      rw [zpow_add₀ two_ne_zero]
      norm_num
      ring
    rw [hsplit, htsplit, ← mul_assoc]
    exact mul_le_mul_of_nonneg_right hmoved (by positivity)
  rcases h.place.above with hleast | habove
  · rw [hleast] at hm
    exact absurd hnormal (not_lt.2 hm)
  · have hmpos : (0 : ℚ) < m :=
      pos_of_mul_pos_left ((two_zpow_pos (-1022)).trans hnormal) (two_zpow_pos e).le
    linarith [mul_pos hmpos (two_zpow_pos (e - 53))]

end

end SeededText.Double
