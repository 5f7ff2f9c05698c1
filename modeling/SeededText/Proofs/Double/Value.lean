import SeededText.Proofs.Double.Order
import SeededText.Proofs.Double.Rounding

/-!
# Doubles as rational numbers

A finite double is a mantissa times a power of two.  Unpacking gives the exponent that is the place
of the last bit (`canonical_unpack`), so there is one way to write each number but nought, and
comparing doubles is comparing what they are worth (`order_eq`).  Packing a number whose exponent is
not too large loses nothing (`unpack_pack`).
-/

namespace SeededText.Double

open Float.Model

/-! ## 1. What doubles are worth -/

def unpackedValue : UnpackedFloat → ℚ
  | .finite .positive m e _ => m * 2 ^ e
  | .finite .negative m e _ => -(m * 2 ^ e)
  | .zero _ | .infinity _ | .notANumber => 0

/-- What a finite double is worth; the others count for nought. -/
def value (x : Float) : ℚ :=
  unpackedValue x.toModel.unpack

theorem unpackedValue_zero (s : UnpackedFloat.Sign) : unpackedValue (.zero s) = 0 :=
  rfl

theorem unpackedValue_positive {m : ℕ} {e : ℤ} (hm : 0 < m) :
    unpackedValue (.finite .positive m e hm) = m * 2 ^ e :=
  rfl

theorem unpackedValue_negative {m : ℕ} {e : ℤ} (hm : 0 < m) :
    unpackedValue (.finite .negative m e hm) = -(m * 2 ^ e) :=
  rfl

theorem value_of_zero {x : Float} {s : UnpackedFloat.Sign} (h : x.toModel.unpack = .zero s) :
    value x = 0 :=
  congrArg unpackedValue h

theorem value_of_positive {x : Float} {m : ℕ} {e : ℤ} {hm : 0 < m}
    (h : x.toModel.unpack = .finite .positive m e hm) : value x = m * 2 ^ e :=
  congrArg unpackedValue h

/-- The exponent of a finite number is the place of its last bit. -/
def Canonical : UnpackedFloat → Prop
  | .finite _ m e _ => IsPlace (m * 2 ^ e) e
  | .zero _ | .infinity _ | .notANumber => True

section

variable {m n : ℕ} {e d : ℤ} {u v : UnpackedFloat}

theorem compare_places (h : IsPlace ((m : ℚ) * 2 ^ e) e) (h' : IsPlace ((n : ℚ) * 2 ^ d) d) :
    (compare e d).then (compare m n) = compare ((m : ℚ) * 2 ^ e) (n * 2 ^ d) := by
  rcases lt_trichotomy e d with hlt | rfl | hgt
  · have hvalue : (m : ℚ) * 2 ^ e < n * 2 ^ d := by
      by_contra hle
      exact absurd (h'.mono h (not_lt.1 hle)) (not_le.2 hlt)
    rw [compare_lt_iff_lt.2 hlt, compare_lt_iff_lt.2 hvalue]
    rfl
  · have hpos := two_zpow_pos e
    rw [compare_eq_iff_eq.2 rfl, Ordering.eq_then]
    rcases lt_trichotomy m n with hlt | rfl | hgt
    · rw [compare_lt_iff_lt.2 hlt, compare_lt_iff_lt.2]
      exact mul_lt_mul_of_pos_right (Nat.cast_lt.2 hlt) hpos
    · rw [compare_eq_iff_eq.2 rfl, compare_eq_iff_eq.2 rfl]
    · rw [compare_gt_iff_gt.2 hgt, compare_gt_iff_gt.2]
      exact mul_lt_mul_of_pos_right (Nat.cast_lt.2 hgt) hpos
  · have hvalue : (n : ℚ) * 2 ^ d < m * 2 ^ e := by
      by_contra hle
      exact absurd (h.mono h' (not_lt.1 hle)) (not_le.2 hgt)
    rw [compare_gt_iff_gt.2 hgt, compare_gt_iff_gt.2 hvalue]
    rfl

/-- A number with a mantissa is not nought. -/
theorem mul_two_zpow_pos (hm : 0 < m) : (0 : ℚ) < m * 2 ^ e :=
  mul_pos (Nat.cast_pos.2 hm) (two_zpow_pos e)

theorem compare_neg_neg (p q : ℚ) : compare (-p) (-q) = (compare p q).swap := by
  rcases lt_trichotomy p q with hlt | rfl | hgt
  · rw [compare_lt_iff_lt.2 hlt, compare_gt_iff_gt.2 (neg_lt_neg hlt)]
    rfl
  · rw [compare_eq_iff_eq.2 rfl, compare_eq_iff_eq.2 rfl]
    rfl
  · rw [compare_gt_iff_gt.2 hgt, compare_lt_iff_lt.2 (neg_lt_neg hgt)]
    rfl

/-- Finite numbers are compared by what they are worth. -/
theorem compare_eq (hu : Canonical u) (hv : Canonical v) (hu' : u.isFinite = true)
    (hv' : v.isFinite = true) :
    u.compare v = some (compare (unpackedValue u) (unpackedValue v)) := by
  cases u with
  | notANumber | infinity => cases hu'
  | zero s =>
    cases v with
    | notANumber | infinity => cases hv'
    | zero t => rw [unpackedValue_zero, unpackedValue_zero, compare_eq_iff_eq.2 rfl]; rfl
    | finite t n d hn =>
      have hpos := mul_two_zpow_pos (e := d) hn
      cases t with
      | positive =>
        rw [unpackedValue_zero, unpackedValue_positive, compare_lt_iff_lt.2 hpos]
        rfl
      | negative =>
        rw [unpackedValue_zero, unpackedValue_negative, compare_gt_iff_gt.2 (neg_lt_zero.2 hpos)]
        rfl
  | finite s m e hm =>
    have hpos := mul_two_zpow_pos (e := e) hm
    cases v with
    | notANumber | infinity => cases hv'
    | zero t =>
      cases s with
      | positive =>
        rw [unpackedValue_positive, unpackedValue_zero, compare_gt_iff_gt.2 hpos]
        rfl
      | negative =>
        rw [unpackedValue_negative, unpackedValue_zero, compare_lt_iff_lt.2 (neg_lt_zero.2 hpos)]
        rfl
    | finite t n d hn =>
      have hpos' := mul_two_zpow_pos (e := d) hn
      cases s with
      | positive =>
        cases t with
        | positive => exact congrArg some (compare_places hu hv)
        | negative =>
          rw [unpackedValue_positive, unpackedValue_negative, compare_gt_iff_gt.2 (by linarith)]
          rfl
      | negative =>
        cases t with
        | positive =>
          rw [unpackedValue_negative, unpackedValue_positive, compare_lt_iff_lt.2 (by linarith)]
          rfl
        | negative =>
          rw [unpackedValue_negative, unpackedValue_negative, compare_neg_neg,
            ← compare_places hu hv]
          rfl

end

/-! ## 2. Unpacking -/

theorem toNat_one_append (v : BitVec 52) : (1#1 ++ v).toNat = 2 ^ 52 + v.toNat := by
  rw [BitVec.toNat_append, ← Nat.shiftLeft_add_eq_or_of_lt v.isLt]
  rfl

/-- What a sign, an exponent and a mantissa stand for. -/
inductive StandsFor (s : UnpackedFloat.Sign) (exponent : BitVec 11) (mantissa : BitVec 52) :
    UnpackedFloat → Prop where
  | infinity : exponent = -1#11 → mantissa = 0#52 → StandsFor s exponent mantissa (.infinity s)
  | notANumber : exponent = -1#11 → mantissa ≠ 0#52 → StandsFor s exponent mantissa .notANumber
  | zero : exponent = 0#11 → mantissa = 0#52 → StandsFor s exponent mantissa (.zero s)
  | subnormal {m : ℕ} {e : ℤ} (hm : 0 < m) :
      exponent = 0#11 → m = mantissa.toNat → e = -1074 →
        StandsFor s exponent mantissa (.finite s m e hm)
  | normal {m : ℕ} {e : ℤ} (hm : 0 < m) :
      exponent ≠ -1#11 → exponent ≠ 0#11 → m = 2 ^ 52 + mantissa.toNat →
        e = exponent.toNat - 1075 → StandsFor s exponent mantissa (.finite s m e hm)

theorem standsFor_unpack (b : BitVec 64) :
    StandsFor (UnpackedFloat.Sign.ofBitVec (@UnpackedFloat.unpackSign Format.binary64 b))
      (@UnpackedFloat.unpackExponent Format.binary64 b)
      (@UnpackedFloat.unpackMantissa Format.binary64 b)
      (UnpackedFloat.unpack Format.binary64 b) := by
  have hbias : (Format.exponentBias Format.binary64 : ℤ) = 1023 := rfl
  unfold UnpackedFloat.unpack
  dsimp only
  by_cases hinf : @UnpackedFloat.unpackExponent Format.binary64 b = -1#11
  · rw [if_pos hinf]
    by_cases hmant : @UnpackedFloat.unpackMantissa Format.binary64 b = 0#52
    · rw [if_pos hmant]
      exact .infinity hinf hmant
    · rw [if_neg hmant]
      exact .notANumber hinf hmant
  · rw [if_neg hinf]
    by_cases hzero : @UnpackedFloat.unpackExponent Format.binary64 b = 0#11
    · rw [if_pos hzero]
      by_cases hmant : @UnpackedFloat.unpackMantissa Format.binary64 b = 0#52
      · rw [dif_pos hmant]
        exact .zero hzero hmant
      · rw [dif_neg hmant]
        have hpos : 0 < (@UnpackedFloat.unpackMantissa Format.binary64 b).toNat :=
          Nat.pos_of_ne_zero fun hm => hmant (BitVec.eq_of_toNat_eq hm)
        refine .subnormal hpos hzero rfl ?_
        rw [hzero, hbias]
        rfl
    · rw [if_neg hzero]
      refine .normal _ hinf hzero (toNat_one_append _) ?_
      rw [hbias]
      rfl

/-- What is unpacked has the place of its last bit for an exponent, and a double has room for it. -/
theorem StandsFor.isPlace {s t : UnpackedFloat.Sign} {exponent : BitVec 11} {mantissa : BitVec 52}
    {m : ℕ} {e : ℤ} {hm : 0 < m} (h : StandsFor s exponent mantissa (.finite t m e hm)) :
    IsPlace ((m : ℚ) * 2 ^ e) e ∧ e ≤ 971 := by
  have hmant : mantissa.toNat < 2 ^ 52 := mantissa.isLt
  rw [isPlace_iff]
  cases h with
  | subnormal hm hzero => omega
  | normal hm hinf hzero =>
    have hlow : exponent.toNat ≠ 0 := fun h => hzero (BitVec.eq_of_toNat_eq h)
    have hhigh : exponent.toNat ≠ 2047 := fun h => hinf (BitVec.eq_of_toNat_eq h)
    have hlt : exponent.toNat < 2048 := exponent.isLt
    omega

theorem isPlace_of_unpack {x : Float} {s : UnpackedFloat.Sign} {m : ℕ} {e : ℤ} {hm : 0 < m}
    (h : x.toModel.unpack = .finite s m e hm) : IsPlace ((m : ℚ) * 2 ^ e) e ∧ e ≤ 971 := by
  have hstands := standsFor_unpack x.toModel.toBits.toBitVec
  change StandsFor _ _ _ x.toModel.unpack at hstands
  rw [h] at hstands
  exact hstands.isPlace

theorem canonical_unpack (x : Float) : Canonical x.toModel.unpack := by
  cases h : x.toModel.unpack with
  | notANumber | infinity | zero => trivial
  | finite s m e hm => exact (isPlace_of_unpack h).1

section

variable {x y : Float} (hx : x.isFinite = true) (hy : y.isFinite = true)

include hx hy

theorem order_eq : order x y = some (compare (value x) (value y)) :=
  compare_eq (canonical_unpack x) (canonical_unpack y) hx hy

theorem lt_iff_value : x < y ↔ value x < value y := by
  rw [lt_iff, order_eq hx hy, Option.some.injEq, compare_lt_iff_lt]

theorem le_iff_value : x ≤ y ↔ value x ≤ value y := by
  rw [le_iff, order_eq hx hy, Option.some.injEq, Option.some.injEq, compare_lt_iff_lt,
    compare_eq_iff_eq, le_iff_lt_or_eq]

theorem beq_iff_value : (x == y) = true ↔ value x = value y := by
  rw [beq_iff, order_eq hx hy, Option.some.injEq, compare_eq_iff_eq]

end

theorem value_zero : value 0 = 0 :=
  rfl

theorem value_pos {x : Float} (hx : x.isFinite = true) (h : 0 < x) : 0 < value x := by
  have hzero : (0 : Float).isFinite = true := rfl
  rwa [lt_iff_value hzero hx, value_zero] at h

theorem value_one : value 1 = 1 := by
  have hunpack : (1 : Float).toModel.unpack = .finite .positive (2 ^ 52) (-52) (by decide) := rfl
  rw [value_of_positive hunpack, ← two_zpow_add]
  exact zpow_zero 2

/-- Between two finite doubles there are none but finite ones. -/
theorem isFinite_of_le_of_lt {x y z : Float} (hx : x.isFinite = true) (hz : z.isFinite = true)
    (hxy : x ≤ y) (hyz : y < z) : y.isFinite = true := by
  change UnpackedFloat.isFinite x.toModel.unpack = true at hx
  change UnpackedFloat.isFinite z.toModel.unpack = true at hz
  show UnpackedFloat.isFinite y.toModel.unpack = true
  rw [le_iff, order] at hxy
  rw [lt_iff, order] at hyz
  generalize x.toModel.unpack = u at hx hxy
  generalize y.toModel.unpack = v at hxy hyz ⊢
  generalize z.toModel.unpack = w at hz hyz
  cases v with
  | zero | finite => rfl
  | notANumber => cases w <;> cases hyz
  | infinity s =>
    cases s with
    | positive => cases w <;> first | cases hyz | cases hz
    | negative =>
      have hgt : u.compare (.infinity .negative) = some .gt := by
        cases u with
        | notANumber | infinity => cases hx
        | zero => rfl
        | finite s => cases s <;> rfl
      rw [hgt] at hxy
      rcases hxy with hxy | hxy <;> cases hxy

/-- What is less than something that is less than a double, infinity perhaps, is less than it. -/
theorem lt_of_le_of_lt {x y z : Float} (hx : x.isFinite = true) (hy : y.isFinite = true)
    (hxy : x ≤ y) (hyz : y < z) : x < z := by
  cases hz : z.isFinite with
  | true =>
    rw [le_iff_value hx hy] at hxy
    rw [lt_iff_value hy hz] at hyz
    exact (lt_iff_value hx hz).2 (hxy.trans_lt hyz)
  | false =>
    change UnpackedFloat.isFinite x.toModel.unpack = true at hx
    change UnpackedFloat.isFinite y.toModel.unpack = true at hy
    change UnpackedFloat.isFinite z.toModel.unpack = false at hz
    rw [lt_iff, order] at hyz ⊢
    generalize x.toModel.unpack = u at hx ⊢
    generalize y.toModel.unpack = v at hy hyz
    generalize z.toModel.unpack = w at hz hyz ⊢
    cases w with
    | zero | finite => cases hz
    | notANumber => cases v <;> cases hyz
    | infinity s =>
      cases s with
      | positive => cases u <;> first | rfl | cases hx
      | negative => cases v <;> first | cases hyz | cases hy

/-! ## 3. Packing -/

theorem sign_packComponents (s : UnpackedFloat.Sign) (exponent : BitVec 11) (mantissa : BitVec 52) :
    UnpackedFloat.Sign.ofBitVec (UnpackedFloat.unpackSign
      (UnpackedFloat.packComponents Format.binary64 s exponent mantissa)) = s := by
  unfold UnpackedFloat.unpackSign UnpackedFloat.packComponents BitVec.extractLsb
  dsimp only
  rw [BitVec.extractLsb'_append_eq_of_le (by omega), BitVec.extractLsb'_append_eq_of_le (by omega)]
  cases s <;> rfl

/-- What is packed of a sign, an exponent and a mantissa is what they stand for. -/
theorem standsFor_packComponents (s : UnpackedFloat.Sign) (exponent : BitVec 11)
    (mantissa : BitVec 52) :
    StandsFor s exponent mantissa (UnpackedFloat.unpack Format.binary64
      (UnpackedFloat.packComponents Format.binary64 s exponent mantissa)) := by
  have hstands := standsFor_unpack
    (UnpackedFloat.packComponents Format.binary64 s exponent mantissa)
  rwa [sign_packComponents, UnpackedFloat.unpackExponent_packComponents,
    UnpackedFloat.unpackMantissa_packComponents] at hstands

/-- The exponent as it is packed. -/
theorem biased_eq (e : ℤ) : (e + (Format.exponentBias Format.binary64 : Nat)
    + (Format.mantissaBitsWithoutImplicit Format.binary64 : Nat)).toNat = (e + 1075).toNat := by
  show (e + (1023 : Nat) + (52 : Nat)).toNat = _
  omega

/-- Packing makes infinity of a number that is too large. -/
theorem unpack_pack_of_large {s : UnpackedFloat.Sign} {m : ℕ} {e : ℤ} {hm : 0 < m} (he : 971 < e) :
    (Float.Model.pack (.finite s m e hm)).unpack = .infinity s := by
  have hpack : UnpackedFloat.pack Format.binary64 (.finite s m e hm)
      = UnpackedFloat.pack Format.binary64 (.infinity s) := by
    unfold UnpackedFloat.pack
    dsimp only
    rw [biased_eq, if_pos (by omega)]
  show UnpackedFloat.unpack Format.binary64 (UnpackedFloat.pack Format.binary64 _) = _
  rw [hpack]
  cases s <;> rfl

/-- Any other number is packed with its leading bit left out, or with the exponent nought. -/
theorem pack_of_le {s : UnpackedFloat.Sign} {m : ℕ} {e : ℤ} {hm : 0 < m} (he : e ≤ 971) :
    UnpackedFloat.pack Format.binary64 (.finite s m e hm)
      = if m.log2 + 1 = Format.mantissaBits Format.binary64 then
          UnpackedFloat.packComponents Format.binary64 s (BitVec.ofNat 11 (e + 1075).toNat)
            (BitVec.ofNat 52 m)
        else
          UnpackedFloat.packComponents Format.binary64 s 0#11 (BitVec.ofNat 52 m) := by
  unfold UnpackedFloat.pack
  dsimp only
  rw [biased_eq, if_neg (by omega)]

/-- Packing loses nothing of a number that a double has room for. -/
theorem unpack_pack {s : UnpackedFloat.Sign} {m : ℕ} {e : ℤ} {hm : 0 < m}
    (h : IsPlace ((m : ℚ) * 2 ^ e) e) (he : e ≤ 971) :
    (Float.Model.pack (.finite s m e hm)).unpack = .finite s m e hm := by
  obtain ⟨hleast, hmant, hnormal⟩ := isPlace_iff.1 h
  show UnpackedFloat.unpack Format.binary64
    (UnpackedFloat.pack Format.binary64 (.finite s m e hm)) = _
  rw [pack_of_le he]
  by_cases hlog : m.log2 + 1 = Format.mantissaBits Format.binary64
  · rw [if_pos hlog]
    -- the leading bit is not packed, and is there again after unpacking
    have hle : 2 ^ 52 ≤ m := (Nat.le_log2 hm.ne').1 (Nat.le_of_eq (Nat.add_right_cancel hlog).symm)
    have hmantissa : (BitVec.ofNat 52 m).toNat = m - 2 ^ 52 := by
      rw [BitVec.toNat_ofNat]
      omega
    have hexponent : (BitVec.ofNat 11 (e + 1075).toNat).toNat = (e + 1075).toNat := by
      rw [BitVec.toNat_ofNat]
      omega
    have hstands := standsFor_packComponents s (BitVec.ofNat 11 (e + 1075).toNat)
      (BitVec.ofNat 52 m)
    generalize UnpackedFloat.unpack Format.binary64 _ = u at hstands ⊢
    generalize BitVec.ofNat 11 _ = exponent at hexponent hstands
    cases hstands with
    | infinity hinf | notANumber hinf =>
      rw [hinf] at hexponent
      have hall : (-1#11 : BitVec 11).toNat = 2047 := rfl
      omega
    | zero hzero | subnormal _ hzero =>
      rw [hzero] at hexponent
      have hnone : (0#11 : BitVec 11).toNat = 0 := rfl
      omega
    | normal =>
      rw [UnpackedFloat.finite.injEq]
      exact ⟨rfl, by omega, by omega⟩
  · rw [if_neg hlog]
    have hlt : m < 2 ^ 52 := by
      rw [← Nat.log2_lt hm.ne'] at hmant ⊢
      have hbits : Format.mantissaBits Format.binary64 = 53 := rfl
      omega
    have hmantissa : (BitVec.ofNat 52 m).toNat = m := by
      rw [BitVec.toNat_ofNat]
      omega
    have hstands := standsFor_packComponents s 0#11 (BitVec.ofNat 52 m)
    generalize UnpackedFloat.unpack Format.binary64 _ = u at hstands ⊢
    generalize BitVec.ofNat 52 m = mantissa at hmantissa hstands
    cases hstands with
    | infinity hinf | notANumber hinf => exact absurd hinf (by decide)
    | zero _ hzero =>
      rw [hzero] at hmantissa
      exact absurd hmantissa.symm hm.ne'
    | normal _ _ hne => exact absurd rfl hne
    | subnormal =>
      rw [UnpackedFloat.finite.injEq]
      exact ⟨rfl, by omega, by omega⟩

end SeededText.Double
