import SeededText.Draw.Hash
import SeededText.Draw.Weighted
import SeededText.Proofs.Double.Arithmetic

/-!
# Draws pick something

Where there is something to pick from, a draw picks it.  For options that is plain arithmetic.  For
weights it needs that their total is above zero, and the total is a sum of doubles, which round.

Rounding cannot bring a sum of numbers above zero down to zero: the smallest double above zero is a
whole multiple of no smaller one, so a sum has at least as many bits to keep.  The proof follows an
addition through its unpacked form.  `Above` is what unpacking says of a double above zero, and it
is kept by adding (`Above.add`) and by packing the sum again (`Above.pack`).
-/

namespace SeededText.Draw

open Double Float.Model

/-! ## 1. Above zero -/

/-- A number above zero with the place of its last bit for an exponent, or infinity. -/
inductive Above : UnpackedFloat → Prop where
  | infinity : Above (.infinity .positive)
  | finite {m : Nat} {e : Int} (hm : 0 < m) :
      IsPlace ((m : ℚ) * 2 ^ e) e → Above (.finite .positive m e hm)

/-- Being above zero is seen after unpacking. -/
theorem zero_lt_iff_above (x : Float) : 0 < x ↔ Above x.toModel.unpack := by
  have hzero : (0 : Float).toModel.unpack = .zero .positive := rfl
  rw [lt_iff, order, hzero]
  constructor
  · intro h
    cases hunpack : x.toModel.unpack with
    | notANumber | zero =>
      rw [hunpack] at h
      cases h
    | infinity s =>
      cases s with
      | positive => exact .infinity
      | negative =>
        rw [hunpack] at h
        cases h
    | finite s m e hm =>
      cases s with
      | positive => exact .finite hm (isPlace_of_unpack hunpack).1
      | negative =>
        rw [hunpack] at h
        cases h
  · intro h
    generalize x.toModel.unpack = u at h ⊢
    cases h <;> rfl

/-- Packing makes infinity of a number that is too large, and leaves the others as they are. -/
theorem Above.pack {u : UnpackedFloat} (h : Above u) : Above (Float.Model.pack u).unpack := by
  cases h with
  | infinity => exact .infinity
  | @finite m e hm hplace =>
    rcases le_or_gt e 971 with hroom | hlarge
    · rw [unpack_pack hplace hroom]
      exact .finite hm hplace
    · rw [unpack_pack_of_large hlarge]
      exact .infinity

/-! ## 2. Adding -/

/-- A number that is no less than the last place there is is not rounded to nought. -/
theorem above_round {m : Nat} {e : Int} (hm : 0 < m) (he : -1074 ≤ e) :
    Above (UnpackedFloat.round Format.binary64 .positive m e) := by
  obtain ⟨t, p, hrounds, hwritten⟩ := exists_round hm e .positive
  have hbit : (2 : ℚ) ^ t ≤ m * 2 ^ e := by
    rcases hrounds.place.above with hleast | habove
    · have hmant : (1 : ℚ) ≤ m := Nat.one_le_cast.2 hm
      calc (2 : ℚ) ^ t ≤ 2 ^ e := two_zpow_le (by omega)
        _ = 1 * 2 ^ e := (one_mul _).symm
        _ ≤ m * 2 ^ e := mul_le_mul_of_nonneg_right hmant (two_zpow_pos e).le
    · exact (two_zpow_le (by omega)).trans habove
  have hp : 0 < p := by
    have hle : ((1 : ℕ) : ℚ) * 2 ^ t ≤ p := hrounds.ge_of_ge (by simpa using hbit)
    exact (by simpa using two_zpow_pos t : (0 : ℚ) < (1 : ℕ) * 2 ^ t).trans_le hle
  generalize UnpackedFloat.round Format.binary64 .positive m e = u at hwritten ⊢
  cases hwritten with
  | zero => exact absurd hp (lt_irrefl 0)
  | finite hm' hplace => exact .finite hm' hplace

/-- A sum of two numbers above zero is above zero. -/
theorem Above.add {u v : UnpackedFloat} (hu : Above u) (hv : Above v) :
    Above (UnpackedFloat.add Format.binary64 u v) := by
  cases hu with
  | infinity => cases hv <;> exact .infinity
  | @finite m e hm hplace =>
    cases hv with
    | infinity => exact .infinity
    | @finite m' e' hm' hplace' =>
      have hshifted : ∀ {n : Nat} (k : Nat), 0 < n → 0 < n <<< k := fun k hn => by
        rw [Nat.shiftLeft_eq]
        exact Nat.mul_pos hn (Nat.two_pow_pos k)
      unfold UnpackedFloat.add UnpackedFloat.decreaseExponent UnpackedFloat.normalize
      dsimp only [UnpackedFloat.Sign.apply]
      have hpos := hshifted (e - min e e').toNat hm
      have hpos' := hshifted (e' - min e e').toNat hm'
      have hleast := hplace.least
      have hleast' := hplace'.least
      split
      · next hcompare =>
        rw [Int.compare_eq_lt] at hcompare
        omega
      · next hcompare =>
        rw [Int.compare_eq_eq] at hcompare
        omega
      · exact above_round (by omega) (by omega)

/-! ## 3. Sums of weights -/

theorem zero_lt_add {x y : Float} (hx : 0 < x) (hy : 0 < y) : 0 < x + y := by
  rw [zero_lt_iff_above] at hx hy ⊢
  exact (hx.add hy).pack

theorem zero_lt_zero_add {x : Float} (hx : 0 < x) : 0 < 0 + x := by
  rw [zero_lt_iff_above] at hx ⊢
  have hzero : (0 : Float).toModel.unpack = .zero .positive := rfl
  have hadd : ∀ {u}, Above u → UnpackedFloat.add Format.binary64 (.zero .positive) u = u := by
    intro u hu
    cases hu <;> rfl
  show Above (Float.Model.pack (UnpackedFloat.add Format.binary64 (0 : Float).toModel.unpack
    x.toModel.unpack)).unpack
  rw [hzero, hadd hx]
  exact hx.pack

theorem zero_lt_foldl {total : Float} {weights : List Float} (htotal : 0 < total)
    (h : ∀ weight ∈ weights, 0 < weight) : 0 < weights.foldl (· + ·) total := by
  induction weights generalizing total with
  | nil => exact htotal
  | cons weight weights ih =>
    have hweight := h weight List.mem_cons_self
    exact ih (zero_lt_add htotal hweight) fun w hw => h w (List.mem_cons_of_mem weight hw)

/-- The sum of the weights, from left to right. -/
def total (weights : List Float) : Float :=
  weights.foldl (· + ·) 0

/-- Weights above zero have a total above zero, if there are any. -/
theorem zero_lt_total {weights : List Float} (hne : weights ≠ [])
    (h : ∀ weight ∈ weights, 0 < weight) : 0 < total weights := by
  cases weights with
  | nil => exact absurd rfl hne
  | cons weight weights =>
    have hweight := h weight List.mem_cons_self
    rw [total, List.foldl_cons]
    exact zero_lt_foldl (zero_lt_zero_add hweight) fun w hw => h w (List.mem_cons_of_mem weight hw)

/-! ## 4. Picking -/

/-- The sum of the weights up to an index and with it. -/
def runningTotal (weights : List Float) (i : Nat) : Float :=
  total (weights.take (i + 1))

/-- The index is the first whose running total exceeds the target. -/
structure FirstExceeds (target : Float) (weights : List Float) (i : Nat) : Prop where
  inside : i < weights.length
  above : target < runningTotal weights i
  first : ∀ j < i, ¬ target < runningTotal weights j

theorem runningTotal_last {weights : List Float} (hne : weights ≠ []) :
    runningTotal weights (weights.length - 1) = total weights := by
  have hlen : weights.length - 1 + 1 = weights.length :=
    Nat.succ_pred_eq_of_pos (List.length_pos_iff.2 hne)
  rw [runningTotal, hlen, List.take_length]

section

variable {target start : Float} {index i : Nat} {weights : List Float}

theorem first_of_firstAbove (h : firstAbove target start index weights = some i) :
    ∃ k < weights.length, i = index + k ∧
      target < (weights.take (k + 1)).foldl (· + ·) start ∧
        ∀ j < k, ¬ target < (weights.take (j + 1)).foldl (· + ·) start := by
  induction weights generalizing start index with
  | nil => cases h
  | cons weight weights ih =>
    unfold firstAbove at h
    split at h
    · next habove =>
      cases h
      exact ⟨0, Nat.succ_pos _, rfl, habove, nofun⟩
    · next hnot =>
      obtain ⟨k, hk, rfl, habove, hfirst⟩ := ih h
      refine ⟨k + 1, Nat.succ_lt_succ hk, by omega, habove, fun j hj => ?_⟩
      cases j with
      | zero => exact hnot
      | succ j => exact hfirst j (Nat.lt_of_succ_lt_succ hj)

theorem none_above_of_firstAbove (h : firstAbove target start index weights = none) :
    ∀ j < weights.length, ¬ target < (weights.take (j + 1)).foldl (· + ·) start := by
  induction weights generalizing start index with
  | nil => nofun
  | cons weight weights ih =>
    unfold firstAbove at h
    split at h
    · cases h
    · next hnot =>
      intro j hj
      cases j with
      | zero => exact hnot
      | succ j => exact ih h j (Nat.lt_of_succ_lt_succ hj)

/-- What is picked is the first whose running total exceeds the share, or the last if none does. -/
theorem weightedIndex_cases (hne : weights ≠ []) (hpos : ∀ weight ∈ weights, 0 < weight)
    (draw : Float) :
    (∃ i, weightedIndex weights draw = some i ∧ FirstExceeds (draw * total weights) weights i) ∨
      (weightedIndex weights draw = some (weights.length - 1) ∧
        ∀ j < weights.length, ¬ draw * total weights < runningTotal weights j) := by
  have htotal : 0 < total weights := zero_lt_total hne hpos
  have hguard : ¬ (weights.isEmpty || !decide (0 < total weights)) = true := by
    simp [hne, htotal]
  have hpick : weightedIndex weights draw
      = some ((firstAbove (draw * total weights) 0 0 weights).getD (weights.length - 1)) :=
    if_neg hguard
  rw [hpick]
  cases hfirst : firstAbove (draw * total weights) 0 0 weights with
  | none => exact .inr ⟨rfl, none_above_of_firstAbove hfirst⟩
  | some i =>
    obtain ⟨k, hk, hi, habove, hnot⟩ := first_of_firstAbove hfirst
    rw [Nat.zero_add] at hi
    subst hi
    exact .inl ⟨i, rfl, hk, habove, hnot⟩

end

/-- A draw picks one of the weights, if there are any. -/
theorem exists_weightedIndex {weights : List Float} (hne : weights ≠ [])
    (h : ∀ weight ∈ weights, 0 < weight) (draw : Float) :
    ∃ i, weightedIndex weights draw = some i ∧ i < weights.length := by
  rcases weightedIndex_cases hne h draw with ⟨i, hpick, hfirst⟩ | ⟨hpick, -⟩
  · exact ⟨i, hpick, hfirst.inside⟩
  · have hlen := List.length_pos_iff.2 hne
    exact ⟨_, hpick, by omega⟩

/-- A draw picks one of so many places, if there are any. -/
theorem exists_index? (material : String) {n : Nat} (hn : n ≠ 0) :
    ∃ i, index? material n = some i ∧ i < n := by
  unfold index?
  rw [if_neg hn]
  refine ⟨_, rfl, ?_⟩
  omega

end SeededText.Draw
