/-!
# Doubles are compared after unpacking

A double is compared as what its bits unpack to: infinity, zero or a mantissa with an exponent, each
with a sign.  Comparing the other way round gives the opposite answer, and only the value that is no
number gives none.  So any two finite doubles are in one order, which all comparisons of them are
read from.
-/

namespace SeededText.Double

open Float.Model

/-- The order of two doubles; there is none if one of them is no number. -/
def order (x y : Float) : Option Ordering :=
  x.toModel.unpack.compare y.toModel.unpack

/-! ## 1. The comparisons by the order -/

section

variable (x y : Float)

theorem lt_iff : x < y ↔ order x y = some .lt := by
  show decide (x.toModel < y.toModel) = true ↔ _
  rw [decide_eq_true_iff]
  show UnpackedFloat.lt x.toModel.unpack y.toModel.unpack = true ↔ _
  rw [UnpackedFloat.lt, order]
  cases x.toModel.unpack.compare y.toModel.unpack with
  | none => decide
  | some o => cases o <;> decide

theorem le_iff : x ≤ y ↔ order x y = some .lt ∨ order x y = some .eq := by
  show decide (x.toModel ≤ y.toModel) = true ↔ _
  rw [decide_eq_true_iff]
  show UnpackedFloat.le x.toModel.unpack y.toModel.unpack = true ↔ _
  rw [UnpackedFloat.le, order]
  cases x.toModel.unpack.compare y.toModel.unpack with
  | none => decide
  | some o => cases o <;> decide

theorem le_of_lt {x y : Float} (h : x < y) : x ≤ y :=
  (le_iff x y).2 (.inl ((lt_iff x y).1 h))

theorem beq_iff : (x == y) = true ↔ order x y = some .eq := by
  show (order x y == some .eq) = true ↔ _
  cases order x y with
  | none => decide
  | some o => cases o <;> decide

end

/-! ## 2. The order is total on finite doubles -/

theorem sign_compare_swap (s t : UnpackedFloat.Sign) : (compare s t).swap = compare t s := by
  cases s <;> cases t <;> rfl

/-- Mantissas count where exponents are the same. -/
theorem then_compare_swap (d e : Int) (m n : Nat) :
    ((compare d e).then (compare m n)).swap = (compare e d).then (compare n m) := by
  rw [Ordering.swap_then, Int.compare_swap, Nat.compare_swap]

theorem compare_swap (u v : UnpackedFloat) :
    v.compare u = (u.compare v).map Ordering.swap := by
  cases u with
  | notANumber => cases v <;> rfl
  | infinity s =>
    cases v with
    | notANumber => rfl
    | infinity t => exact congrArg some (sign_compare_swap s t).symm
    | zero t => cases s <;> rfl
    | finite t => cases s <;> cases t <;> rfl
  | zero s =>
    cases v with
    | notANumber => rfl
    | infinity t => cases t <;> rfl
    | zero t => rfl
    | finite t => cases t <;> rfl
  | finite s m e =>
    cases v with
    | notANumber => rfl
    | infinity t => cases t <;> cases s <;> rfl
    | zero t => cases s <;> rfl
    | finite t n d =>
      cases s <;> cases t
      · exact congrArg some (congrArg Ordering.swap (then_compare_swap e d m n)).symm
      · rfl
      · rfl
      · exact congrArg some (then_compare_swap e d m n).symm

theorem order_swap (x y : Float) : order y x = (order x y).map Ordering.swap :=
  compare_swap x.toModel.unpack y.toModel.unpack

theorem exists_compare {u v : UnpackedFloat} (hu : u.isFinite = true) (hv : v.isFinite = true) :
    ∃ o, u.compare v = some o := by
  cases u with
  | notANumber => cases hu
  | infinity => cases hu
  | zero s =>
    cases v with
    | notANumber => cases hv
    | infinity => cases hv
    | zero t => exact ⟨_, rfl⟩
    | finite t => cases t <;> exact ⟨_, rfl⟩
  | finite s =>
    cases v with
    | notANumber => cases hv
    | infinity => cases hv
    | zero t => cases s <;> exact ⟨_, rfl⟩
    | finite t => cases s <;> cases t <;> exact ⟨_, rfl⟩

/-! ## 3. What the comparisons have to do with each other -/

theorem le_eq_lt_or_beq (x y : Float) : decide (x ≤ y) = (decide (x < y) || x == y) := by
  rw [Bool.eq_iff_iff, Bool.or_eq_true, decide_eq_true_iff, decide_eq_true_iff, beq_iff, lt_iff,
    le_iff]

theorem beq_comm (x y : Float) : (x == y) = (y == x) := by
  rw [Bool.eq_iff_iff, beq_iff, beq_iff, order_swap x y]
  cases order x y with
  | none => decide
  | some o => cases o <;> decide

/-- Of two finite doubles one is less, or they are equal, or the other is less. -/
theorem exactlyOne {x y : Float} (hx : x.isFinite = true) (hy : y.isFinite = true) :
    [decide (x < y), x == y, decide (y < x)].count true = 1 := by
  obtain ⟨o, ho⟩ : ∃ o, order x y = some o := exists_compare hx hy
  have hlt : decide (x < y) = decide (o = .lt) := by simp [lt_iff, ho]
  have hgt : decide (y < x) = decide (o = .gt) := by
    rw [decide_eq_decide, lt_iff, order_swap x y, ho]
    cases o <;> decide
  have heq : (x == y) = decide (o = .eq) := by
    rw [Bool.eq_iff_iff, beq_iff, ho, decide_eq_true_iff, Option.some.injEq]
  rw [hlt, hgt, heq]
  cases o <;> rfl

end SeededText.Double
