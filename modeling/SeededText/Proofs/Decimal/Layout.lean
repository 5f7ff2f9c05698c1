import SeededText.Decimal.Layout
import SeededText.Proofs.Decimal.Shortest

/-!
# What a number is written as

A finite double that is not nought is written as its shortest decimal, all digits in full
(`Positional`) and never with an exponent.  `Writes` says so of what a double's bits stand for, with
the sign in front, and `writes_iff` that `plain` writes this.
-/

namespace SeededText.Decimal

open Float.Model Double

/-! ## 1. Digits in full -/

/-- The digits are followed by as many zeros as the exponent says.  If it is negative, the last ones are
the fraction, and a zero stands in front of the point where there would be no digit else. -/
inductive Positional : Digits → List Char → Prop where
  | whole (n power : ℕ) : Positional ⟨n, power⟩ (Nat.toDigits 10 n ++ List.replicate power '0')
  | fraction {n zeros : ℕ} {whole fraction : List Char} :
      whole ++ fraction = List.replicate zeros '0' ++ Nat.toDigits 10 n → fraction ≠ [] →
        zeros = 0 ∧ whole ≠ [] ∨ whole = ['0'] →
          Positional ⟨n, -fraction.length⟩ (whole ++ '.' :: fraction)

theorem positional_of_point_pos {n : ℕ} {k : ℤ} (hneg : k < 0)
    (hpoint : 0 < ((digitsOf n).length : ℤ) + k) : Digits.positional ⟨n, k⟩ []
      = (digitsOf n).take (((digitsOf n).length : ℤ) + k).toNat
        ++ '.' :: (digitsOf n).drop (((digitsOf n).length : ℤ) + k).toNat := by
  rw [Digits.positional, if_neg (not_le.2 hneg), if_pos hpoint]

theorem positional_of_point_nonpos {n : ℕ} {k : ℤ} (hneg : k < 0)
    (hpoint : ((digitsOf n).length : ℤ) + k ≤ 0) : Digits.positional ⟨n, k⟩ []
      = ['0'] ++ '.' :: (List.replicate (-(((digitsOf n).length : ℤ) + k)).toNat '0'
        ++ digitsOf n) := by
  rw [Digits.positional, if_neg (not_le.2 hneg), if_neg (not_lt.2 hpoint)]
  rfl

/-- The layout writes the digits in full. -/
theorem positional_positional (d : Digits) : Positional d (d.positional []) := by
  obtain ⟨n, k⟩ := d
  rcases lt_or_ge k 0 with hneg | hwhole
  · rcases lt_or_ge 0 (((digitsOf n).length : ℤ) + k) with hpoint | hpoint
    · rw [positional_of_point_pos hneg hpoint]
      generalize hp : (((digitsOf n).length : ℤ) + k).toNat = p
      have hk : k = -(((digitsOf n).drop p).length : ℤ) := by
        rw [List.length_drop]
        omega
      have hwhole : (digitsOf n).take p ≠ [] := by
        rw [← List.length_pos_iff, List.length_take]
        omega
      have hfraction : (digitsOf n).drop p ≠ [] := by
        rw [← List.length_pos_iff, List.length_drop]
        omega
      have hpositional := @Positional.fraction n 0 _ _ (List.take_append_drop p (digitsOf n))
        hfraction (.inl ⟨rfl, hwhole⟩)
      rwa [← hk] at hpositional
    · rw [positional_of_point_nonpos hneg hpoint]
      generalize hz : (-(((digitsOf n).length : ℤ) + k)).toNat = zeros
      have hk : k = -((List.replicate zeros '0' ++ digitsOf n).length : ℤ) := by
        rw [List.length_append, List.length_replicate]
        omega
      have hfraction : List.replicate zeros '0' ++ digitsOf n ≠ [] := by
        rw [← List.length_pos_iff]
        omega
      have hpositional := @Positional.fraction n (zeros + 1) ['0']
        (List.replicate zeros '0' ++ digitsOf n) rfl hfraction (.inr rfl)
      rwa [← hk] at hpositional
  · obtain ⟨power, rfl⟩ := Int.eq_ofNat_of_zero_le hwhole
    have hlayout : Digits.positional ⟨n, power⟩ [] = digitsOf n ++ List.replicate power '0' :=
      List.append_nil _
    rw [hlayout]
    exact .whole n power

/-- There is no other way to write them. -/
theorem Positional.eq_positional {d : Digits} {cs : List Char} (h : Positional d cs) :
    cs = d.positional [] := by
  cases h with
  | whole n power => exact (List.append_nil _).symm
  | @fraction n zeros whole fraction hdigits hne hwhole =>
    have hneg : -(fraction.length : ℤ) < 0 := by
      have hpos := List.length_pos_iff.2 hne
      omega
    have hlength := congrArg List.length hdigits
    rw [List.length_append, List.length_append, List.length_replicate] at hlength
    cases zeros with
    | zero =>
      have hne' : whole ≠ [] := by
        rcases hwhole with ⟨-, hne'⟩ | rfl
        · exact hne'
        · exact List.cons_ne_nil _ _
      have hpos := List.length_pos_iff.2 hne'
      change whole ++ fraction = digitsOf n at hdigits
      have hpoint : ((digitsOf n).length : ℤ) + -(fraction.length : ℤ) = whole.length := by
        rw [← hdigits, List.length_append]
        omega
      rw [positional_of_point_pos hneg (by omega), hpoint, Int.toNat_natCast, ← hdigits,
        List.take_left, List.drop_left]
    | succ zeros =>
      obtain rfl : whole = ['0'] := hwhole.resolve_left fun h => absurd h.1 (Nat.succ_ne_zero _)
      obtain rfl : fraction = List.replicate zeros '0' ++ digitsOf n := (List.cons.inj hdigits).2
      have hpoint : ((digitsOf n).length : ℤ)
          + -((List.replicate zeros '0' ++ digitsOf n).length : ℤ) = -zeros := by
        rw [List.length_append, List.length_replicate]
        omega
      rw [positional_of_point_nonpos hneg (by omega), hpoint, neg_neg, Int.toNat_natCast]

/-! ## 2. Doubles in full -/

def signText : UnpackedFloat.Sign → String
  | .positive => ""
  | .negative => "-"

def sign? : UnpackedFloat → Option UnpackedFloat.Sign
  | .notANumber => none
  | .infinity s | .zero s | .finite s .. => some s

/-- The text of what a double stands for, with nothing that is not needed: no exponent, and a point only
in front of a fraction. -/
inductive Writes : UnpackedFloat → String → Prop where
  | notANumber : Writes .notANumber "NaN"
  | infinity (s : UnpackedFloat.Sign) : Writes (.infinity s) (signText s ++ "inf")
  | zero (s : UnpackedFloat.Sign) : Writes (.zero s) (signText s ++ "0")
  | finite (s : UnpackedFloat.Sign) {m : ℕ} {e : ℤ} (hm : 0 < m) {d : Digits} {cs : List Char} :
      IsShortest (m * 2 ^ e) .up d → Positional d cs →
        Writes (.finite s m e hm) (signText s ++ String.ofList cs)

section

variable {x : Float} {s : UnpackedFloat.Sign} {m : ℕ} {e : ℤ} {hm : 0 < m}

theorem isNegative_iff (x : Float) : isNegative x = true ↔
    UnpackedFloat.Sign.ofBitVec
      (@UnpackedFloat.unpackSign Format.binary64 x.toModel.toBits.toBitVec) = .negative := by
  have hsign := toNat_unpackSign x.toModel.toBits.toBitVec
  have hbits : isNegative x = true ↔ 2 ^ 63 ≤ x.toModel.toBits.toBitVec.toNat :=
    decide_eq_true_iff
  rw [hbits, UnpackedFloat.Sign.ofBitVec]
  split
  · next hzero =>
    have hnone : (@UnpackedFloat.unpackSign Format.binary64
        x.toModel.toBits.toBitVec).toNat = 0 := congrArg BitVec.toNat hzero
    exact iff_of_false (by omega) fun h => by cases h
  · next hone =>
    have hsome : (@UnpackedFloat.unpackSign Format.binary64
        x.toModel.toBits.toBitVec).toNat ≠ 0 := fun h => hone (BitVec.eq_of_toNat_eq h)
    exact iff_of_true (by omega) rfl

/-- The sign that is written is that of what the bits stand for. -/
theorem sign_eq (h : sign? x.toModel.unpack = some s) :
    (if isNegative x then "-" else "") = signText s := by
  have hstands := standsFor_unpack x.toModel.toBits.toBitVec
  change StandsFor _ _ _ x.toModel.unpack at hstands
  have hnegative := isNegative_iff x
  generalize UnpackedFloat.Sign.ofBitVec _ = s' at hstands hnegative
  have hs : s' = s := by
    generalize x.toModel.unpack = u at h hstands
    cases hstands with
    | notANumber => cases h
    | infinity | zero | subnormal | normal => exact Option.some.inj h
  rw [← hs]
  cases s' with
  | positive => rw [if_neg (mt hnegative.1 fun h => by cases h)]; rfl
  | negative => rw [if_pos (hnegative.2 rfl)]; rfl

theorem unpack_abs_of_finite (h : x.toModel.unpack = .finite s m e hm) :
    x.abs.toModel.unpack = .finite .positive m e hm := by
  obtain ⟨hplace, hroom⟩ := isPlace_of_unpack h
  show (Float.Model.pack x.toModel.unpack.abs).unpack = _
  rw [h]
  exact unpack_pack hplace hroom

theorem plain_of_notANumber (h : x.toModel.unpack = .notANumber) : plain x = "NaN" := by
  have hnan : x.isNaN = true := congrArg UnpackedFloat.isNaN h
  rw [plain, written, if_pos hnan]

theorem plain_of_sign (h : sign? x.toModel.unpack = some s) : plain x = signText s ++
    if x.isInf then "inf"
    else if x.abs == 0 then "0"
    else String.ofList ((shortest .up x.abs).positional []) := by
  have hnan : x.isNaN = false := by
    show x.toModel.unpack.isNaN = false
    generalize x.toModel.unpack = u at h
    cases u with
    | notANumber => cases h
    | infinity | zero | finite => rfl
  rw [plain, written, if_neg (ne_true_of_eq_false hnan)]
  dsimp only
  rw [sign_eq h, apply_ite (signText s ++ ·), apply_ite (signText s ++ ·)]

theorem plain_of_infinity (h : x.toModel.unpack = .infinity s) : plain x = signText s ++ "inf" := by
  have hinf : x.isInf = true := congrArg UnpackedFloat.isInf h
  rw [plain_of_sign (by rw [h]; rfl), if_pos hinf]

theorem plain_of_zero (h : x.toModel.unpack = .zero s) : plain x = signText s ++ "0" := by
  have hinf : x.isInf = false := congrArg UnpackedFloat.isInf h
  have hzero : (x.abs == 0) = true := by
    rw [beq_iff, order]
    change (Float.Model.pack x.toModel.unpack.abs).unpack.compare _ = _
    rw [h]
    cases s <;> rfl
  rw [plain_of_sign (by rw [h]; rfl), if_neg (ne_true_of_eq_false hinf), if_pos hzero]

theorem plain_of_finite (h : x.toModel.unpack = .finite s m e hm) :
    plain x = signText s ++ String.ofList ((shortest .up x.abs).positional []) := by
  have hinf : x.isInf = false := congrArg UnpackedFloat.isInf h
  have hpos : ¬ (x.abs == 0) = true := by
    rw [beq_iff, order, unpack_abs_of_finite h]
    intro heq
    cases heq
  rw [plain_of_sign (by rw [h]; rfl), if_neg (ne_true_of_eq_false hinf), if_neg hpos]

/-- What is written of a double is what it stands for, and nothing else would be that. -/
theorem writes_iff (x : Float) (text : String) :
    Writes x.toModel.unpack text ↔ plain x = text := by
  cases h : x.toModel.unpack with
  | notANumber =>
    rw [plain_of_notANumber h]
    exact ⟨fun hw => by cases hw; rfl, fun hw => hw ▸ .notANumber⟩
  | infinity s =>
    rw [plain_of_infinity h]
    exact ⟨fun hw => by cases hw; rfl, fun hw => hw ▸ .infinity s⟩
  | zero s =>
    rw [plain_of_zero h]
    exact ⟨fun hw => by cases hw; rfl, fun hw => hw ▸ .zero s⟩
  | finite s m e hm =>
    have hshortest := isShortest_shortest (unpack_abs_of_finite h) .up
    rw [plain_of_finite h]
    constructor
    · intro hw
      cases hw with
      | finite _ _ hd hcs => rw [hcs.eq_positional, hd.unique hshortest]
    · rintro rfl
      exact .finite s hm hshortest (positional_positional _)

end

end SeededText.Decimal
