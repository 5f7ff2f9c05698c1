import SeededText.Proofs.Double.Value

/-!
# Rounded results

A sum or a product of doubles is taken exactly and then rounded.  Its mantissa is shifted until the
exponent is the place of the last bit that is kept, and two bits tell what was shifted out: the first
of it, and whether there was anything else.  That is enough to round to the nearest (`Tells.near`),
so `exists_round` says of either what `RoundsAt` asks for.

Rounding does not look whether a double has room for the exponent: packing does, and gives infinity
if it has none.
-/

namespace SeededText.Double

open Float.Model UnpackedFloat

/-! ## 1. Shifting out bits -/

/-- The mantissa with the first bit behind it. -/
def start (em : ExtendedMantissa) : ℚ :=
  em.mantissa + if em.roundBit then 1 / 2 else 0

/-- The mantissa and the bits tell where the number stands: within a half of where they start, and
not just there if and only if the last bit is set. -/
structure Tells (em : ExtendedMantissa) (x : ℚ) : Prop where
  le : start em ≤ x
  lt : x < start em + 1 / 2
  sticky : em.stickyBit = false ↔ x = start em

section

variable {em : ExtendedMantissa} {x : ℚ}

theorem tells_exact (m : ℕ) : Tells (.ofMantissaAndAccuracy m .exact) m := by
  have hstart : start (.ofMantissaAndAccuracy m .exact) = m := add_zero _
  exact ⟨hstart.le, by linarith, by rw [hstart]; exact iff_of_true rfl rfl⟩

theorem start_shiftRightOne (em : ExtendedMantissa) :
    start em.shiftRightOne = (em.mantissa : ℚ) / 2 := by
  have hmod : (em.mantissa : ℚ) = 2 * (em.mantissa / 2 : ℕ) + (em.mantissa % 2 : ℕ) := by
    exact_mod_cast (Nat.div_add_mod em.mantissa 2).symm
  rw [start, ExtendedMantissa.shiftRightOne]
  dsimp only
  rcases Nat.mod_two_eq_zero_or_one em.mantissa with hm | hm <;> rw [hm] at hmod ⊢ <;>
    simp <;> linarith

theorem Tells.shiftRightOne (h : Tells em x) : Tells em.shiftRightOne (x / 2) := by
  have hstart := start_shiftRightOne em
  have hle := h.le
  have hlt := h.lt
  have hsticky := h.sticky
  cases hround : em.roundBit with
  | false =>
    have heq : start em = em.mantissa := by simp [start, hround]
    rw [heq] at hle hlt hsticky
    refine ⟨by linarith, by linarith, ?_⟩
    rw [hstart, ExtendedMantissa.shiftRightOne, hround, Bool.false_or, hsticky]
    constructor <;> intro hx <;> linarith
  | true =>
    have heq : start em = em.mantissa + 1 / 2 := by simp [start, hround]
    rw [heq] at hle hlt
    refine ⟨by linarith, by linarith, ?_⟩
    rw [hstart, ExtendedMantissa.shiftRightOne, hround, Bool.true_or]
    exact iff_of_false (by simp) fun hx => by linarith

theorem Tells.shiftRight (h : Tells em x) (k : ℕ) : Tells (em >>> k) (x / 2 ^ k) := by
  show Tells (k.repeat ExtendedMantissa.shiftRightOne em) _
  induction k with
  | zero => simpa [Nat.repeat] using h
  | succ k ih =>
    rw [Nat.repeat, pow_succ, ← div_div]
    exact ih.shiftRightOne

/-- The number is rounded to a whole one that is no further away than a half. -/
theorem Tells.near (h : Tells em x) : |(em.roundedMantissa : ℚ) - x| ≤ 1 / 2 := by
  obtain ⟨m, round, sticky⟩ := em
  obtain ⟨hle, hlt, hsticky⟩ := h
  rw [abs_le]
  cases round with
  | false =>
    have hstart : start ⟨m, false, sticky⟩ = m := add_zero _
    have hrounded : ExtendedMantissa.roundedMantissa ⟨m, false, sticky⟩ = m := by
      cases sticky <;> rfl
    rw [hstart] at hle hlt
    rw [hrounded]
    constructor <;> linarith
  | true =>
    have hstart : start ⟨m, true, sticky⟩ = m + 1 / 2 := rfl
    rw [hstart] at hle hlt hsticky
    cases sticky with
    | false =>
      -- a tie: up or down is as near
      have hx := hsticky.1 rfl
      have hrounded : ExtendedMantissa.roundedMantissa ⟨m, true, false⟩ = m + m % 2 := rfl
      rw [hrounded]
      rcases Nat.mod_two_eq_zero_or_one m with hm | hm <;> rw [hm] <;> push_cast <;>
        constructor <;> linarith
    | true =>
      have hrounded : ExtendedMantissa.roundedMantissa ⟨m, true, true⟩ = m + 1 := rfl
      rw [hrounded]
      push_cast
      constructor <;> linarith

end

/-! ## 2. Rounding -/

/-- The place of the last bit that is kept of a mantissa and an exponent. -/
def place (m : ℕ) (e : ℤ) : ℤ :=
  max (m.log2 + e - 52) (-1074)

theorem targetExponent_eq (m : ℕ) (e : ℤ) :
    Format.targetExponent Format.binary64 (totalExponent m e) = place m e := by
  show max ((m.log2 : ℤ) + 1 + e - 53) (-1074) = _
  rw [place]
  omega

theorem isPlace_place {m : ℕ} (hm : 0 < m) (e : ℤ) : IsPlace ((m : ℚ) * 2 ^ e) (place m e) := by
  have hlow : (2 : ℚ) ^ (m.log2 : ℤ) ≤ m := by
    rw [zpow_natCast]
    exact_mod_cast Nat.log2_self_le hm.ne'
  have hhigh : (m : ℚ) < 2 ^ ((m.log2 : ℤ) + 1) := by
    rw [← Nat.cast_succ, zpow_natCast]
    exact_mod_cast Nat.lt_log2_self
  refine ⟨by rw [place]; omega, ?_, ?_⟩
  · calc (m : ℚ) * 2 ^ e < 2 ^ ((m.log2 : ℤ) + 1) * 2 ^ e :=
          mul_lt_mul_of_pos_right hhigh (two_zpow_pos e)
      _ = 2 ^ ((m.log2 : ℤ) + 1 + e) := (zpow_add₀ two_ne_zero _ _).symm
      _ ≤ 2 ^ (place m e + 53) := two_zpow_le (by rw [place]; omega)
  · rcases le_total ((m.log2 : ℤ) + e - 52) (-1074) with hle | hge
    · exact .inl (max_eq_right hle)
    · right
      calc (2 : ℚ) ^ (place m e + 52) = 2 ^ ((m.log2 : ℤ) + e) := by
            rw [place, max_eq_left hge, sub_add_cancel]
        _ = 2 ^ (m.log2 : ℤ) * 2 ^ e := zpow_add₀ two_ne_zero _ _
        _ ≤ m * 2 ^ e := mul_le_mul_of_nonneg_right hlow (two_zpow_pos e).le

/-- The first of two shifts: as far as the place, with what is shifted out rounded off. -/
theorem roundsAt_shift {m : ℕ} {e : ℤ} (hm : 0 < m) (he : e ≤ place m e) :
    ∃ r : ℕ, RoundsAt (place m e) (m * 2 ^ e) (r * 2 ^ place m e) ∧
      (shiftToTargetExponent Format.binary64 m e .exact).1.roundedMantissa = r ∧
        (shiftToTargetExponent Format.binary64 m e .exact).2 = place m e := by
  obtain ⟨k, hk⟩ := Int.le.dest he
  have hshift : shiftToTargetExponent Format.binary64 m e .exact
      = (ExtendedMantissa.ofMantissaAndAccuracy m .exact >>> k, place m e) := by
    rw [shiftToTargetExponent, targetExponent_eq, shiftToExponent, ← hk]
    simp
  have hnear := ((tells_exact m).shiftRight k).near
  rw [hshift]
  refine ⟨_, ⟨isPlace_place hm e, ⟨_, rfl⟩, ?_⟩, rfl, rfl⟩
  have hpos := two_zpow_pos (place m e)
  have hscale : (m : ℚ) * 2 ^ e = m / 2 ^ k * 2 ^ place m e := by
    rw [← hk, zpow_add₀ two_ne_zero, zpow_natCast, mul_comm ((2 : ℚ) ^ e), ← mul_assoc,
      div_mul_cancel₀ _ (pow_ne_zero k two_ne_zero)]
  rw [hscale, ← sub_mul, abs_mul, abs_of_pos hpos]
  calc _ ≤ 1 / 2 * (2 : ℚ) ^ place m e := mul_le_mul_of_nonneg_right hnear hpos.le
    _ = _ := by ring

/-- The number is written with a sign and the place of its last bit, or as nought. -/
inductive Written (s : Sign) : ℚ → UnpackedFloat → Prop where
  | zero : Written s 0 (.zero s)
  | finite {m : ℕ} {e : ℤ} (hm : 0 < m) :
      IsPlace ((m : ℚ) * 2 ^ e) e → Written s (m * 2 ^ e) (.finite s m e hm)

/-- A whole mantissa that has no bit too many is left as it is. -/
theorem shiftToTargetExponent_of_lt {r : ℕ} {t : ℤ} (hr : r < 2 ^ 53) (ht : -1074 ≤ t) :
    shiftToTargetExponent Format.binary64 r t .exact = (⟨r, false, false⟩, t) := by
  have hlog : r.log2 ≤ 52 := by
    rcases Nat.eq_zero_or_pos r with rfl | hpos
    · decide
    · exact Nat.lt_succ_iff.1 ((Nat.log2_lt hpos.ne').2 hr)
  have hplace : (place r t - t).toNat = 0 := by
    rw [place]
    omega
  rw [shiftToTargetExponent, targetExponent_eq, shiftToExponent, hplace]
  simp [HShiftRight.hShiftRight, Nat.repeat, ExtendedMantissa.ofMantissaAndAccuracy]

/-- Rounding up to the next power of two leaves one bit too many, and the last one is nought. -/
theorem shiftToTargetExponent_two_pow {t : ℤ} (ht : -1074 ≤ t) :
    shiftToTargetExponent Format.binary64 (2 ^ 53) t .exact = (⟨2 ^ 52, false, false⟩, t + 1) := by
  have hplace : (place (2 ^ 53) t - t).toNat = 1 := by
    rw [place, Nat.log2_two_pow]
    omega
  rw [shiftToTargetExponent, targetExponent_eq, shiftToExponent, hplace]
  rfl

/-- A mantissa and an exponent are rounded to the nearest number at the place of the last bit. -/
theorem exists_roundWithAccuracy {m : ℕ} {e : ℤ} (hm : 0 < m) (he : e ≤ place m e) (s : Sign) :
    ∃ p, RoundsAt (place m e) (m * 2 ^ e) p ∧
      Written s p (roundWithAccuracy Format.binary64 s m e .exact) := by
  obtain ⟨r, hrounds, hmantissa, hexponent⟩ := roundsAt_shift hm he
  refine ⟨_, hrounds, ?_⟩
  unfold roundWithAccuracy
  generalize shiftToTargetExponent Format.binary64 m e .exact = first at hmantissa hexponent ⊢
  obtain ⟨em, t⟩ := first
  dsimp only at hmantissa hexponent ⊢
  rw [hmantissa, hexponent]
  have hleast := hrounds.place.least
  have hpos := two_zpow_pos (place m e)
  have hle : r ≤ 2 ^ 53 := by
    have hbelow : (m : ℚ) * 2 ^ e < 2 ^ (place m e + (53 : ℕ)) := hrounds.place.below
    rw [two_zpow_add] at hbelow
    have hround := hrounds.le_of_le hbelow.le
    rwa [mul_le_mul_iff_left₀ hpos, Nat.cast_le] at hround
  rcases hle.lt_or_eq with hlt | rfl
  · rw [shiftToTargetExponent_of_lt hlt hleast]
    dsimp only
    by_cases hzero : r = 0
    · rw [dif_pos hzero, hzero, Nat.cast_zero, zero_mul]
      exact .zero
    · rw [dif_neg hzero]
      refine .finite _ (isPlace_iff.2 ⟨hleast, hlt, hrounds.place.above.imp_right fun habove => ?_⟩)
      change (2 : ℚ) ^ (place m e + (52 : ℕ)) ≤ m * 2 ^ e at habove
      rw [two_zpow_add] at habove
      have hround := hrounds.ge_of_ge habove
      rwa [mul_le_mul_iff_left₀ hpos, Nat.cast_le] at hround
  · rw [shiftToTargetExponent_two_pow hleast]
    have hcarry : ((2 ^ 53 : ℕ) : ℚ) * 2 ^ place m e = (2 ^ 52 : ℕ) * 2 ^ (place m e + 1) := by
      rw [zpow_add_one₀ two_ne_zero]
      push_cast
      ring
    rw [hcarry]
    exact .finite _ (isPlace_iff.2 ⟨by omega, by decide, .inr le_rfl⟩)

/-- A mantissa that has too few bits is shifted the other way first. -/
theorem exists_round {m : ℕ} (hm : 0 < m) (e : ℤ) (s : Sign) :
    ∃ t p, RoundsAt t (m * 2 ^ e) p ∧ Written s p (UnpackedFloat.round Format.binary64 s m e) := by
  unfold UnpackedFloat.round decreaseExponent
  rw [targetExponent_eq]
  dsimp only
  generalize hk : (e - place m e).toNat = k
  have hshifted : 0 < m <<< k := by
    rw [Nat.shiftLeft_eq]
    exact Nat.mul_pos hm (Nat.two_pow_pos k)
  have hvalue : ((m <<< k : ℕ) : ℚ) * 2 ^ (e - k) = m * 2 ^ e := by
    rw [Nat.shiftLeft_eq, Nat.cast_mul, mul_assoc, ← two_zpow_add, sub_add_cancel]
  have hplace := isPlace_place hshifted (e - k)
  rw [hvalue] at hplace
  have hle : e - k ≤ place (m <<< k) (e - k) := by
    rw [hplace.unique (isPlace_place hm e)]
    omega
  obtain ⟨p, hrounds, hwritten⟩ := exists_roundWithAccuracy hshifted hle s
  rw [hvalue] at hrounds
  exact ⟨_, p, hrounds, hwritten⟩

/-- No number is rounded past one that a double has room for, so it can be packed. -/
theorem Written.unpack_pack {s : Sign} {p : ℚ} {u : UnpackedFloat} {n : ℕ} {d : ℤ}
    (h : Written s p u) (hroom : IsPlace ((n : ℚ) * 2 ^ d) d) (hd : d ≤ 971) (hp : p ≤ n * 2 ^ d) :
    (Float.Model.pack u).unpack = u := by
  cases h with
  | zero => cases s <;> rfl
  | finite hm hplace => exact Double.unpack_pack hplace ((hplace.mono hroom hp).trans hd)

theorem Written.isFinite {s : Sign} {p : ℚ} {u : UnpackedFloat} (h : Written s p u) :
    u.isFinite = true := by
  cases h <;> rfl

theorem Written.value {p : ℚ} {u : UnpackedFloat} (h : Written .positive p u) :
    unpackedValue u = p := by
  cases h <;> rfl

/-! ## 3. Products -/

theorem isPlace_zero : IsPlace 0 (-1074) :=
  ⟨le_rfl, two_zpow_pos _, .inl rfl⟩

/-- The mantissas of two doubles have bits enough for their product. -/
theorem le_place_mul {m n : ℕ} {e d : ℤ} (hm : 0 < m) (hn : 0 < n)
    (hx : IsPlace ((m : ℚ) * 2 ^ e) e) (hy : IsPlace ((n : ℚ) * 2 ^ d) d) :
    e + d ≤ place (m * n) (e + d) := by
  obtain ⟨-, -, hm'⟩ := isPlace_iff.1 hx
  obtain ⟨-, -, hn'⟩ := isPlace_iff.1 hy
  have hlog : 2 ^ 52 ≤ m * n → 52 ≤ (m * n).log2 := (Nat.le_log2 (Nat.mul_pos hm hn).ne').2
  have hleft : m ≤ m * n := Nat.le_mul_of_pos_right m hn
  have hright : n ≤ m * n := Nat.le_mul_of_pos_left n hm
  rw [place]
  omega

theorem cases_of_value_nonneg {x : Float} (hx : x.isFinite = true) (hvalue : 0 ≤ value x) :
    (∃ s, x.toModel.unpack = .zero s) ∨
      ∃ m e hm, x.toModel.unpack = .finite .positive m e hm := by
  change UnpackedFloat.isFinite x.toModel.unpack = true at hx
  unfold value at hvalue
  cases hunpack : x.toModel.unpack with
  | notANumber | infinity => rw [hunpack] at hx; cases hx
  | zero s => exact .inl ⟨s, rfl⟩
  | finite s m e hm =>
    cases s with
    | positive => exact .inr ⟨m, e, hm, rfl⟩
    | negative =>
      rw [hunpack, unpackedValue_negative] at hvalue
      linarith [mul_two_zpow_pos (e := e) hm]

theorem finite_of_value_pos {x : Float} (hx : x.isFinite = true) (hvalue : 0 < value x) :
    ∃ m e hm, x.toModel.unpack = .finite .positive m e hm := by
  refine (cases_of_value_nonneg hx hvalue.le).resolve_left ?_
  rintro ⟨s, hunpack⟩
  rw [value_of_zero hunpack] at hvalue
  exact lt_irrefl _ hvalue

section

variable {x x' y : Float}

/-- A share of a double, which a factor below one takes, is rounded to the nearest. -/
theorem roundsAt_mul (hx : x.isFinite = true) (hy : y.isFinite = true) (hlow : 0 ≤ value x)
    (hhigh : value x < 1) (hpos : 0 < value y) :
    (x * y).isFinite = true ∧ ∃ t, RoundsAt t (value x * value y) (value (x * y)) := by
  have hle : value x * value y ≤ value y := mul_le_of_le_one_left hpos.le hhigh.le
  obtain ⟨n, d, hn, hyunpack⟩ := finite_of_value_pos hy hpos
  have hmul : (x * y).toModel.unpack = (Float.Model.pack
      (UnpackedFloat.mul Format.binary64 x.toModel.unpack y.toModel.unpack)).unpack := rfl
  have hyvalue := value_of_positive hyunpack
  rcases cases_of_value_nonneg hx hlow with ⟨s, hxunpack⟩ | ⟨m, e, hm, hxunpack⟩
  · have hzero : (x * y).toModel.unpack = .zero (s * .positive) := by
      rw [hmul, hxunpack, hyunpack]
      show (Float.Model.pack (.zero (s * .positive))).unpack = _
      cases s <;> rfl
    refine ⟨congrArg UnpackedFloat.isFinite hzero, -1074, ?_⟩
    rw [value_of_zero hxunpack, zero_mul, value_of_zero hzero]
    refine ⟨isPlace_zero, ⟨0, by simp⟩, ?_⟩
    rw [sub_zero, abs_zero]
    linarith [two_zpow_pos (-1074)]
  · obtain ⟨hyplace, hd⟩ := isPlace_of_unpack hyunpack
    have hplace := le_place_mul hm hn (isPlace_of_unpack hxunpack).1 hyplace
    obtain ⟨p, hrounds, hwritten⟩ := exists_roundWithAccuracy (Nat.mul_pos hm hn) hplace .positive
    have hxvalue := value_of_positive hxunpack
    have hproduct : ((m * n : ℕ) : ℚ) * 2 ^ (e + d) = value x * value y := by
      rw [hxvalue, hyvalue, zpow_add₀ two_ne_zero]
      push_cast
      ring
    rw [hproduct] at hrounds
    have hp : p ≤ n * 2 ^ d := hrounds.le_of_isPlace hyplace (hyvalue ▸ hle)
    have hunpack : (x * y).toModel.unpack
        = roundWithAccuracy Format.binary64 .positive (m * n) (e + d) .exact := by
      rw [hmul, hxunpack, hyunpack]
      exact hwritten.unpack_pack hyplace hd hp
    have hvalue : value (x * y) = p := (congrArg unpackedValue hunpack).trans hwritten.value
    exact ⟨(congrArg UnpackedFloat.isFinite hunpack).trans hwritten.isFinite, _, hvalue ▸ hrounds⟩

/-- A double below one is below it by a 2⁻⁵³th at least. -/
theorem value_le_of_lt_one (hx : x.isFinite = true) (hlow : 0 ≤ value x) (hhigh : value x < 1) :
    value x ≤ 1 - 2 ^ (-53 : ℤ) := by
  have hhalf : (2 : ℚ) ^ (-53 : ℤ) ≤ 2 ^ (-1 : ℤ) := two_zpow_le (by decide)
  have hone : (1 : ℚ) = 2 ^ (-1 : ℤ) + 2 ^ (-1 : ℤ) := by norm_num
  rcases cases_of_value_nonneg hx hlow with ⟨s, hunpack⟩ | ⟨m, e, hm, hunpack⟩
  · rw [value_of_zero hunpack]
    linarith [two_zpow_pos (-1)]
  · have hplace := (isPlace_of_unpack hunpack).1
    rw [value_of_positive hunpack] at hhigh ⊢
    rcases lt_or_ge e (-53) with hlt | hge
    · have hsmall : (2 : ℚ) ^ (e + 53) ≤ 2 ^ (-1 : ℤ) := two_zpow_le (by omega)
      linarith [hplace.below]
    · -- one is a multiple of the place too, so the next one up is no more than it
      have he : e ≤ 0 := by
        by_contra hpos
        have hmant : (1 : ℚ) ≤ m := Nat.one_le_cast.2 hm
        have hpow : (2 : ℚ) ^ (0 : ℤ) ≤ 2 ^ e := two_zpow_le (by omega)
        have hle := mul_le_mul hmant hpow (by norm_num) (Nat.cast_nonneg m)
        rw [zpow_zero, one_mul] at hle
        exact absurd hhigh (not_lt.2 hle)
      obtain ⟨j, hj⟩ := exists_multiple he 1
      rw [Nat.cast_one, zpow_zero, one_mul] at hj
      have hnext : (m : ℚ) * 2 ^ e + 2 ^ e ≤ j * 2 ^ e := by
        by_contra hlt
        rw [hj] at hhigh
        exact absurd (multiple_le (not_le.1 hlt)) (not_le.2 hhigh)
      have hpow : (2 : ℚ) ^ (-53 : ℤ) ≤ 2 ^ e := two_zpow_le hge
      linarith

/-- A share is no more than the whole. -/
theorem value_mul_le (hx : x.isFinite = true) (hy : y.isFinite = true) (hlow : 0 ≤ value x)
    (hhigh : value x < 1) (hpos : 0 < value y) : value (x * y) ≤ value y := by
  obtain ⟨-, t, hrounds⟩ := roundsAt_mul hx hy hlow hhigh hpos
  obtain ⟨n, d, hn, hunpack⟩ := finite_of_value_pos hy hpos
  have hvalue := value_of_positive hunpack
  have hle : value x * value y ≤ value y := mul_le_of_le_one_left hpos.le hhigh.le
  rw [hvalue] at hle hrounds ⊢
  exact hrounds.le_of_isPlace (isPlace_of_unpack hunpack).1 hle

/-- A share is less than the whole, unless the whole is so small that it has fewer places. -/
theorem value_mul_lt (hx : x.isFinite = true) (hy : y.isFinite = true) (hlow : 0 ≤ value x)
    (hhigh : value x < 1) (hnormal : 2 ^ (-1022 : ℤ) < value y) : value (x * y) < value y := by
  have hpos : 0 < value y := (two_zpow_pos _).trans hnormal
  obtain ⟨-, t, hrounds⟩ := roundsAt_mul hx hy hlow hhigh hpos
  obtain ⟨n, d, hn, hunpack⟩ := finite_of_value_pos hy hpos
  have hvalue := value_of_positive hunpack
  have hle := mul_le_mul_of_nonneg_right (value_le_of_lt_one hx hlow hhigh) hpos.le
  rw [hvalue] at hle hrounds hnormal ⊢
  refine hrounds.lt_of_isPlace (isPlace_of_unpack hunpack).1 (hle.trans_eq ?_) hnormal
  rw [zpow_sub₀ two_ne_zero, zpow_neg]
  ring

/-- A larger share of the same whole is no less. -/
theorem value_mul_mono {x' : Float} (hx : x.isFinite = true) (hx' : x'.isFinite = true)
    (hy : y.isFinite = true) (hlow : 0 ≤ value x) (hlt : value x < value x')
    (hhigh : value x' < 1) (hpos : 0 < value y) : value (x * y) ≤ value (x' * y) := by
  obtain ⟨-, t, hrounds⟩ := roundsAt_mul hx hy hlow (hlt.trans hhigh) hpos
  obtain ⟨-, t', hrounds'⟩ := roundsAt_mul hx' hy (hlow.trans hlt.le) hhigh hpos
  exact hrounds.mono hrounds' (mul_lt_mul_of_pos_right hlt hpos)

end

end SeededText.Double
