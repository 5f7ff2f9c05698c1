import SeededText.Decimal.Shortest
import SeededText.Proofs.Double.Nearest
import SeededText.Proofs.Double.Value

/-!
# The shortest decimal is found

Decimals that are rounded to a double are a matter of rational numbers (`ReadsAs`), and so is which of
them is the shortest: it has the largest power of ten, and of those the least distance
(`IsShortest`).  The search looks at two points of one grid after another and compares natural
numbers.  Three things make up for the difference: a grid point that is rounded to the double forces a
neighbour of the double to be rounded to it (`reads_neighbour`), what is compared are the distances on
another scale (`exists_scale`), and above the first grid of the search there is nothing to be found,
while the last one is fine enough (`powers_bound`).
-/

namespace SeededText.Decimal

open Float.Model Double

/-! ## 1. What is to be found -/

/-- How far the decimal is from the number. -/
def gap (p : ℚ) (k : ℤ) (n : ℕ) : ℚ :=
  |n * 10 ^ k - p|

/-- Of two decimals on one grid that are as near, the writer takes the first. -/
def Tie.Takes : Tie → ℕ → ℕ → Prop
  | .up, n, other => other ≤ n
  | .even, n, other => other = n ∨ Even n

/-- Of two decimals on one grid, the first is nearer to the number, or as near and taken. -/
def Preferred (p : ℚ) (tie : Tie) (k : ℤ) (n other : ℕ) : Prop :=
  gap p k n < gap p k other ∨ gap p k n = gap p k other ∧ tie.Takes n other

/-- The decimal is rounded to the number, and preferred to every other one on its grid that is. -/
structure IsNearest (p : ℚ) (tie : Tie) (k : ℤ) (n : ℕ) : Prop where
  reads : ReadsAs (n * 10 ^ k) p
  preferred : ∀ other : ℕ, ReadsAs (other * 10 ^ k) p → Preferred p tie k n other

/-- The decimal is the nearest on the coarsest grid with one that is rounded to the number. -/
structure IsShortest (p : ℚ) (tie : Tie) (d : Digits) : Prop
    extends IsNearest p tie d.exponent d.digits where
  coarsest : ∀ (n : ℕ) (k : ℤ), ReadsAs (n * 10 ^ k) p → k ≤ d.exponent

theorem Tie.takes_self (tie : Tie) (n : ℕ) : tie.Takes n n := by
  cases tie with
  | up => exact Nat.le_refl n
  | even => exact .inl rfl

theorem preferred_self (p : ℚ) (tie : Tie) (k : ℤ) (n : ℕ) : Preferred p tie k n n :=
  .inr ⟨rfl, tie.takes_self n⟩

/-- Where ties go up there is one shortest decimal. -/
theorem IsShortest.unique {p : ℚ} {d d' : Digits} (h : IsShortest p .up d)
    (h' : IsShortest p .up d') : d = d' := by
  obtain ⟨n, k⟩ := d
  obtain ⟨n', k'⟩ := d'
  obtain rfl : k = k' :=
    le_antisymm (h'.coarsest n k h.reads) (h.coarsest n' k' h'.reads)
  rcases h.preferred n' h'.reads with hlt | ⟨heq, hle⟩
  · rcases h'.preferred n h.reads with hlt' | ⟨heq', -⟩
    · exact absurd hlt' hlt.not_gt
    · exact absurd heq' hlt.ne'
  · rcases h'.preferred n h.reads with hlt' | ⟨-, hle'⟩
    · exact absurd heq hlt'.ne'
    · rw [Nat.le_antisymm hle' hle]

/-! ## 2. The parts of a double -/

theorem toNat_unpackMantissa (b : BitVec 64) :
    (@UnpackedFloat.unpackMantissa Format.binary64 b).toNat = b.toNat % 0x10000000000000 := by
  show (BitVec.cast _ (BitVec.extractLsb 51 0 b)).toNat = _
  rw [BitVec.toNat_cast, BitVec.extractLsb_toNat]
  rfl

theorem toNat_unpackExponent (b : BitVec 64) :
    (@UnpackedFloat.unpackExponent Format.binary64 b).toNat = b.toNat / 0x10000000000000 % 0x800 := by
  show (BitVec.cast _ (BitVec.extractLsb 62 52 b)).toNat = _
  rw [BitVec.toNat_cast, BitVec.extractLsb_toNat, Nat.shiftRight_eq_div_pow]

theorem toNat_unpackSign (b : BitVec 64) :
    (@UnpackedFloat.unpackSign Format.binary64 b).toNat = b.toNat / 2 ^ 63 := by
  show (BitVec.cast _ (BitVec.extractLsb 63 63 b)).toNat = _
  rw [BitVec.toNat_cast, BitVec.extractLsb_toNat, Nat.shiftRight_eq_div_pow]
  omega

/-- The bits of a finite double hold its mantissa and its exponent, and tell what is below it. -/
theorem ofFloat_eq {x : Float} {s : UnpackedFloat.Sign} {m : ℕ} {e : ℤ} {hm : 0 < m}
    (h : x.toModel.unpack = .finite s m e hm) :
    Binary.ofFloat x = ⟨m, e, decide (IsNarrow m e)⟩ := by
  have hstands := standsFor_unpack x.toModel.toBits.toBitVec
  change StandsFor _ _ _ x.toModel.unpack at hstands
  rw [h] at hstands
  have hmantissa := toNat_unpackMantissa x.toModel.toBits.toBitVec
  have hexponent := toNat_unpackExponent x.toModel.toBits.toBitVec
  have hbits : x.toBits.toNat = x.toModel.toBits.toBitVec.toNat := rfl
  unfold Binary.ofFloat
  rw [hbits]
  dsimp only
  rw [← hmantissa, ← hexponent]
  generalize @UnpackedFloat.unpackMantissa Format.binary64 x.toModel.toBits.toBitVec = mantissa
    at hstands ⊢
  generalize @UnpackedFloat.unpackExponent Format.binary64 x.toModel.toBits.toBitVec = exponent
    at hstands ⊢
  cases hstands with
  | subnormal _ hzero hmant he =>
    have hpower : exponent.toNat = 0 := congrArg BitVec.toNat hzero
    rw [if_pos hpower, Binary.mk.injEq]
    simp [IsNarrow, hmant, he]
  | normal _ _ hzero hmant he =>
    have hpower : exponent.toNat ≠ 0 := fun h => hzero (BitVec.eq_of_toNat_eq h)
    rw [if_neg hpower, Binary.mk.injEq, ← Bool.decide_and, decide_eq_decide, IsNarrow]
    omega

/-- What a positive double is in parts. -/
structure Binary.IsDouble (b : Binary) : Prop where
  pos : 0 < b.mantissa
  place : IsPlace ((b.mantissa : ℚ) * 2 ^ b.exponent) b.exponent
  room : b.exponent ≤ 971
  narrow : b.narrowBelow = decide (IsNarrow b.mantissa b.exponent)

def Binary.value (b : Binary) : ℚ :=
  b.mantissa * 2 ^ b.exponent

theorem isDouble_ofFloat {x : Float} {s : UnpackedFloat.Sign} {m : ℕ} {e : ℤ} {hm : 0 < m}
    (h : x.toModel.unpack = .finite s m e hm) : (Binary.ofFloat x).IsDouble := by
  obtain ⟨hplace, hroom⟩ := isPlace_of_unpack h
  rw [ofFloat_eq h]
  exact ⟨hm, hplace, hroom, rfl⟩

/-! ## 3. One grid -/

section

variable {b : Binary} {k : ℤ} {n : ℕ} {tie : Tie}

theorem pow_toNat {a : ℚ} (ha : a ≠ 0) (k : ℤ) : a ^ k.toNat = a ^ k * a ^ (-k).toNat := by
  rw [← zpow_natCast, ← zpow_natCast, ← zpow_add₀ ha]
  congr 1
  omega

/-- The grid counts its points and the quarters of a place in whole numbers, on the same scale. -/
theorem exists_scale (b : Binary) (k : ℤ) : ∃ c : ℚ, 0 < c ∧
    (∀ n : ℕ, ((n * (Grid.at b k).step : ℕ) : ℚ) = n * 10 ^ k * c) ∧
    ∀ j : ℕ, ((j * (Grid.at b k).quarter : ℕ) : ℚ) = j * 2 ^ (b.exponent - 2) * c := by
  refine ⟨2 ^ (-(b.exponent - 2)).toNat * 10 ^ (-k).toNat, by positivity, fun n => ?_, fun j => ?_⟩
  · show ((n * (10 ^ k.toNat * 2 ^ (-(b.exponent - 2)).toNat) : ℕ) : ℚ) = _
    push_cast
    rw [pow_toNat (by norm_num)]
    ring
  · show ((j * (2 ^ (b.exponent - 2).toNat * 10 ^ (-k).toNat) : ℕ) : ℚ) = _
    push_cast
    rw [pow_toNat two_ne_zero]
    ring

theorem margin_eq (hb : b.IsDouble) :
    (if b.narrowBelow then 1 else 2) = margin b.mantissa b.exponent := by
  rw [hb.narrow, margin]
  simp

/-- The ends of the interval around the double on the scale of the grid. -/
theorem exists_scale_ends (hb : b.IsDouble) (k : ℤ) : ∃ c : ℚ, 0 < c ∧
    (∀ n : ℕ, ((n * (Grid.at b k).step : ℕ) : ℚ) = n * 10 ^ k * c) ∧
    (((4 * b.mantissa - margin b.mantissa b.exponent) * (Grid.at b k).quarter : ℕ) : ℚ)
      = (4 * b.mantissa - margin b.mantissa b.exponent) * 2 ^ (b.exponent - 2) * c ∧
    (((4 * b.mantissa + 2) * (Grid.at b k).quarter : ℕ) : ℚ)
      = (4 * b.mantissa + 2) * 2 ^ (b.exponent - 2) * c := by
  obtain ⟨c, hc, hpoint, hquarters⟩ := exists_scale b k
  have hle : margin b.mantissa b.exponent ≤ 4 * b.mantissa := by
    have hpos := hb.pos
    have htwo : margin b.mantissa b.exponent ≤ 2 := by exact_mod_cast margin_le _ _
    omega
  refine ⟨c, hc, hpoint, ?_, ?_⟩
  · rw [hquarters, Nat.cast_sub hle]
    push_cast
    rfl
  · rw [hquarters]
    push_cast
    rfl

/-- The test of a grid point is whether it is rounded to the double. -/
theorem reads_iff (hb : b.IsDouble) :
    (Grid.at b k).reads b n = true ↔ ReadsAs (n * 10 ^ k) b.value := by
  obtain ⟨c, hc, hpoint, hlow, hhigh⟩ := exists_scale_ends hb k
  rw [Binary.value, readsAs_iff hb.place, Grid.reads, margin_eq hb]
  split
  · next heven =>
    rw [Bool.and_eq_true, decide_eq_true_iff, decide_eq_true_iff, ← @Nat.cast_le ℚ,
      ← @Nat.cast_le ℚ, hlow, hhigh, hpoint, mul_le_mul_iff_left₀ hc, mul_le_mul_iff_left₀ hc]
    exact ⟨fun h => ⟨h.1, h.2, fun _ => Nat.even_iff.2 heven⟩, fun h => ⟨h.low, h.high⟩⟩
  · next hodd =>
    rw [Bool.and_eq_true, decide_eq_true_iff, decide_eq_true_iff, ← @Nat.cast_lt ℚ,
      ← @Nat.cast_lt ℚ, hlow, hhigh, hpoint, mul_lt_mul_iff_left₀ hc, mul_lt_mul_iff_left₀ hc]
    constructor
    · rintro ⟨habove, hbelow⟩
      exact ⟨habove.le, hbelow.le, fun hends => absurd hends (by simp [habove.ne', hbelow.ne])⟩
    · rintro ⟨habove, hbelow, hends⟩
      have hne : ¬ Even b.mantissa := fun heven => hodd (Nat.even_iff.1 heven)
      exact ⟨habove.lt_of_ne fun heq => hne (hends (.inl heq.symm)),
        hbelow.lt_of_ne fun heq => hne (hends (.inr heq))⟩

/-- The double on the scale of the grid. -/
def scaled (b : Binary) (k : ℤ) : ℕ :=
  4 * b.mantissa * (Grid.at b k).quarter

/-- The neighbour of the double on the grid that is not above it; the other one is the next. -/
def lower (b : Binary) (k : ℤ) : ℕ :=
  scaled b k / (Grid.at b k).step

theorem exists_scale_scaled (b : Binary) (k : ℤ) : ∃ c : ℚ, 0 < c ∧
    (∀ n : ℕ, ((n * (Grid.at b k).step : ℕ) : ℚ) = n * 10 ^ k * c) ∧
    (scaled b k : ℚ) = b.value * c := by
  obtain ⟨c, hc, hpoint, hquarters⟩ := exists_scale b k
  refine ⟨c, hc, hpoint, ?_⟩
  rw [scaled, hquarters, Binary.value, mul_two_zpow_eq_four_mul b.mantissa]
  push_cast
  ring

theorem lower_mul_le (b : Binary) (k : ℤ) : lower b k * (Grid.at b k).step ≤ scaled b k :=
  Nat.div_mul_le_self _ _

theorem lt_lower_add_one_mul (b : Binary) (k : ℤ) :
    scaled b k < (lower b k + 1) * (Grid.at b k).step := by
  have hstep : 0 < (Grid.at b k).step :=
    Nat.mul_pos (Nat.pow_pos (by decide)) (Nat.pow_pos (by decide))
  exact (Nat.div_lt_iff_lt_mul hstep).1 (Nat.lt_succ_self _)

/-- The double stands between its neighbours. -/
theorem neighbours (b : Binary) (k : ℤ) :
    lower b k * 10 ^ k ≤ b.value ∧ b.value < (lower b k + 1 : ℕ) * 10 ^ k := by
  obtain ⟨c, hc, hpoint, hscaled⟩ := exists_scale_scaled b k
  have hle := lower_mul_le b k
  have hlt := lt_lower_add_one_mul b k
  rw [← @Nat.cast_le ℚ, hpoint, hscaled, mul_le_mul_iff_left₀ hc] at hle
  rw [← @Nat.cast_lt ℚ, hpoint, hscaled, mul_lt_mul_iff_left₀ hc] at hlt
  exact ⟨hle, hlt⟩

/-- The differences that are compared are the distances of the neighbours, on one scale. -/
theorem difference_lt_iff (b : Binary) (k : ℤ) :
    (scaled b k - lower b k * (Grid.at b k).step
        < (lower b k + 1) * (Grid.at b k).step - scaled b k ↔
      gap b.value k (lower b k) < gap b.value k (lower b k + 1)) ∧
    ((lower b k + 1) * (Grid.at b k).step - scaled b k
        < scaled b k - lower b k * (Grid.at b k).step ↔
      gap b.value k (lower b k + 1) < gap b.value k (lower b k)) := by
  obtain ⟨c, hc, hpoint, hscaled⟩ := exists_scale_scaled b k
  obtain ⟨hle, hlt⟩ := neighbours b k
  have hdown : ((scaled b k - lower b k * (Grid.at b k).step : ℕ) : ℚ)
      = gap b.value k (lower b k) * c := by
    rw [Nat.cast_sub (lower_mul_le b k), hscaled, hpoint, gap, abs_of_nonpos (by linarith)]
    ring
  have hup : (((lower b k + 1) * (Grid.at b k).step - scaled b k : ℕ) : ℚ)
      = gap b.value k (lower b k + 1) * c := by
    rw [Nat.cast_sub (lt_lower_add_one_mul b k).le, hscaled, hpoint, gap,
      abs_of_nonneg (by linarith)]
    ring
  constructor
  · rw [← @Nat.cast_lt ℚ, hdown, hup, mul_lt_mul_iff_left₀ hc]
  · rw [← @Nat.cast_lt ℚ, hdown, hup, mul_lt_mul_iff_left₀ hc]

/-- A grid point that is rounded to the double is one of the neighbours, or stands behind one that is
rounded to it too. -/
theorem reads_neighbour (hb : b.IsDouble) (h : ReadsAs (n * 10 ^ k) b.value) :
    ∃ near : ℕ, ReadsAs (near * 10 ^ k) b.value ∧ (near = lower b k ∨ near = lower b k + 1) ∧
      (near = n ∨ gap b.value k near < gap b.value k n) := by
  obtain ⟨hdown, hup⟩ := neighbours b k
  have hten : (0 : ℚ) < 10 ^ k := by positivity
  rcases Nat.lt_or_ge (lower b k) n with hlt | hle
  · have hpoint : ((lower b k + 1 : ℕ) : ℚ) * 10 ^ k ≤ n * 10 ^ k :=
      mul_le_mul_of_nonneg_right (Nat.cast_le.2 hlt) hten.le
    refine ⟨_, h.of_between hb.place (.inr ⟨hup.le, hpoint⟩), .inr rfl, ?_⟩
    rcases hpoint.eq_or_lt with heq | hlt'
    · left
      exact_mod_cast mul_right_cancel₀ hten.ne' heq
    · right
      rw [gap, gap, abs_of_nonneg (by linarith), abs_of_nonneg (by linarith)]
      linarith
  · have hpoint : (n : ℚ) * 10 ^ k ≤ lower b k * 10 ^ k :=
      mul_le_mul_of_nonneg_right (Nat.cast_le.2 hle) hten.le
    refine ⟨_, h.of_between hb.place (.inl ⟨hpoint, hdown⟩), .inl rfl, ?_⟩
    rcases hpoint.eq_or_lt with heq | hlt'
    · left
      exact_mod_cast (mul_right_cancel₀ hten.ne' heq).symm
    · right
      rw [gap, gap, abs_of_nonpos (by linarith), abs_of_nonpos (by linarith)]
      linarith

/-- It is enough to be preferred to the neighbours. -/
theorem isNearest_of_neighbours (hb : b.IsDouble) (h : ReadsAs (n * 10 ^ k) b.value)
    (hlower : ReadsAs (lower b k * 10 ^ k) b.value → Preferred b.value tie k n (lower b k))
    (hupper : ReadsAs ((lower b k + 1 : ℕ) * 10 ^ k) b.value →
      Preferred b.value tie k n (lower b k + 1)) : IsNearest b.value tie k n := by
  refine ⟨h, fun other hother => ?_⟩
  obtain ⟨near, hreads, hneighbour, hgap⟩ := reads_neighbour hb hother
  have hnear : Preferred b.value tie k n near := by
    rcases hneighbour with rfl | rfl
    · exact hlower hreads
    · exact hupper hreads
  rcases hgap with rfl | hgap
  · exact hnear
  · rcases hnear with hlt | ⟨heq, -⟩
    · exact .inl (hlt.trans hgap)
    · exact .inl (heq.trans_lt hgap)

theorem lower_pos (hb : b.IsDouble) (h : ReadsAs (lower b k * 10 ^ k) b.value) : 0 < lower b k := by
  have hpos := h.pos hb.place hb.pos
  by_contra hzero
  simp [Nat.eq_zero_of_not_pos hzero] at hpos

theorem hit?_eq (b : Binary) (tie : Tie) (k : ℤ) : (Grid.at b k).hit? b tie =
    match decide (0 < lower b k) && (Grid.at b k).reads b (lower b k),
      (Grid.at b k).reads b (lower b k + 1) with
    | true, true =>
      if scaled b k - lower b k * (Grid.at b k).step
          < (lower b k + 1) * (Grid.at b k).step - scaled b k then
        some (lower b k)
      else if (lower b k + 1) * (Grid.at b k).step - scaled b k
          < scaled b k - lower b k * (Grid.at b k).step then
        some (lower b k + 1)
      else
        match tie with
        | .up => some (lower b k + 1)
        | .even => if lower b k % 2 = 0 then some (lower b k) else some (lower b k + 1)
    | true, false => some (lower b k)
    | false, true => some (lower b k + 1)
    | false, false => none :=
  rfl

/-- Where both neighbours are rounded to the double, the one that is preferred is the answer. -/
theorem hit?_of_both (hb : b.IsDouble) (hlower : ReadsAs (lower b k * 10 ^ k) b.value)
    (hupper : ReadsAs ((lower b k + 1 : ℕ) * 10 ^ k) b.value) :
    ∃ n, (Grid.at b k).hit? b tie = some n ∧ IsNearest b.value tie k n := by
  obtain ⟨hdown, hup⟩ := difference_lt_iff b k
  rw [hit?_eq, (reads_iff hb).2 hlower, (reads_iff hb).2 hupper,
    decide_eq_true (lower_pos hb hlower), Bool.and_true]
  dsimp only
  rcases lt_trichotomy (gap b.value k (lower b k)) (gap b.value k (lower b k + 1)) with hlt | heq | hgt
  · rw [if_pos (hdown.2 hlt)]
    exact ⟨_, rfl, isNearest_of_neighbours hb hlower (fun _ => preferred_self ..) fun _ => .inl hlt⟩
  · rw [if_neg (mt hdown.1 heq.not_lt), if_neg (mt hup.1 heq.not_gt)]
    cases tie with
    | up =>
      exact ⟨_, rfl, isNearest_of_neighbours hb hupper
        (fun _ => .inr ⟨heq.symm, Nat.le_succ _⟩) fun _ => preferred_self ..⟩
    | even =>
      dsimp only
      split
      · next heven =>
        exact ⟨_, rfl, isNearest_of_neighbours hb hlower (fun _ => preferred_self ..)
          fun _ => .inr ⟨heq, .inr (Nat.even_iff.2 heven)⟩⟩
      · next hodd =>
        have heven : Even (lower b k + 1) := Nat.even_add_one.2 fun h => hodd (Nat.even_iff.1 h)
        exact ⟨_, rfl, isNearest_of_neighbours hb hupper (fun _ => .inr ⟨heq.symm, .inr heven⟩)
          fun _ => preferred_self ..⟩
  · rw [if_neg (mt hdown.1 hgt.not_gt), if_pos (hup.2 hgt)]
    exact ⟨_, rfl, isNearest_of_neighbours hb hupper (fun _ => .inl hgt) fun _ => preferred_self ..⟩

/-- The grid's answer is the point that is preferred, and there is none only if no point is rounded to
the double. -/
theorem hit?_cases (hb : b.IsDouble) (tie : Tie) (k : ℤ) :
    ((Grid.at b k).hit? b tie = none ∧ ∀ n : ℕ, ¬ ReadsAs (n * 10 ^ k) b.value) ∨
      ∃ n, (Grid.at b k).hit? b tie = some n ∧ IsNearest b.value tie k n := by
  by_cases hlower : ReadsAs (lower b k * 10 ^ k) b.value
  · right
    by_cases hupper : ReadsAs ((lower b k + 1 : ℕ) * 10 ^ k) b.value
    · exact hit?_of_both hb hlower hupper
    · rw [hit?_eq, (reads_iff hb).2 hlower, decide_eq_true (lower_pos hb hlower),
        Bool.eq_false_iff.2 (mt (reads_iff hb).1 hupper)]
      exact ⟨_, rfl, isNearest_of_neighbours hb hlower (fun _ => preferred_self ..)
        fun h => absurd h hupper⟩
  · rw [hit?_eq, Bool.eq_false_iff.2 (mt (reads_iff hb).1 hlower), Bool.and_false]
    by_cases hupper : ReadsAs ((lower b k + 1 : ℕ) * 10 ^ k) b.value
    · rw [(reads_iff hb).2 hupper]
      exact .inr ⟨_, rfl, isNearest_of_neighbours hb hupper (fun h => absurd h hlower)
        fun _ => preferred_self ..⟩
    · rw [Bool.eq_false_iff.2 (mt (reads_iff hb).1 hupper)]
      refine .inl ⟨rfl, fun n hn => ?_⟩
      obtain ⟨near, hreads, rfl | rfl, -⟩ := reads_neighbour hb hn
      · exact hlower hreads
      · exact hupper hreads

end

/-! ## 4. The search -/

/-- The least power of two, at or above one, that is above the mantissa, times the last place. -/
def Binary.top (b : Binary) : ℤ :=
  b.exponent + (Nat.log2 b.mantissa + 1)

/-- The first grid of the search, from the power of two that is above the double. -/
def firstGrid (top : ℤ) : ℤ :=
  top * 30103 / 100000 + 1

/-- Whether `2 ^ i ≤ 10 ^ j`, with negative powers on the other side. -/
def powersLe (i j : ℤ) : Bool :=
  2 ^ i.toNat * 10 ^ (-j).toNat ≤ 10 ^ j.toNat * 2 ^ (-i).toNat

theorem powersLe_iff (i j : ℤ) : powersLe i j = true ↔ (2 : ℚ) ^ i ≤ 10 ^ j := by
  have hpos : (0 : ℚ) < 2 ^ (-i).toNat * 10 ^ (-j).toNat := by positivity
  rw [powersLe, decide_eq_true_iff, ← @Nat.cast_le ℚ]
  push_cast
  rw [pow_toNat two_ne_zero i, pow_toNat (by norm_num) j, mul_assoc, mul_assoc,
    mul_comm ((10 : ℚ) ^ (-j).toNat), mul_le_mul_iff_left₀ hpos]

/-- For every place that the first bit of a double may have, no step of a coarser grid than the first is
below the double, and a step of the last one is less than half a place. -/
theorem powersLe_checked : (List.range 2098).all (fun i =>
    powersLe (i - 1073) (firstGrid (i - 1073) + 1)
      && !powersLe (i - 1073 - 54) (firstGrid (i - 1073) - 24)) = true := by
  decide +kernel

theorem powers_bound {top : ℤ} (hlow : -1073 ≤ top) (hhigh : top ≤ 1024) :
    (2 : ℚ) ^ top ≤ 10 ^ (firstGrid top + 1) ∧ (10 : ℚ) ^ (firstGrid top - 24) < 2 ^ (top - 54) := by
  have hall := List.all_eq_true.1 powersLe_checked (top + 1073).toNat
    (List.mem_range.2 (by omega))
  rw [Int.toNat_of_nonneg (by omega), add_sub_cancel_right, Bool.and_eq_true, powersLe_iff,
    Bool.not_eq_true', Bool.eq_false_iff, Ne, powersLe_iff, not_le] at hall
  exact hall

section

variable {b : Binary} {k : ℤ} {n : ℕ} {tie : Tie}

theorem top_bounds (hb : b.IsDouble) : -1073 ≤ b.top ∧ b.top ≤ b.exponent + 53 ∧ b.top ≤ 1024 := by
  obtain ⟨hleast, hmant, -⟩ := isPlace_iff.1 hb.place
  have hroom := hb.room
  have hlog : Nat.log2 b.mantissa < 53 := (Nat.log2_lt hb.pos.ne').2 hmant
  unfold Binary.top
  omega

/-- Nothing that is rounded to the double reaches the power of two above it. -/
theorem lt_top (hb : b.IsDouble) {v : ℚ} (h : ReadsAs v b.value) : v < 2 ^ b.top := by
  have hlog : b.mantissa < 2 ^ (Nat.log2 b.mantissa + 1) := Nat.lt_log2_self
  have htop : (2 : ℚ) ^ b.top
      = (2 ^ (Nat.log2 b.mantissa + 1) * 4 : ℕ) * 2 ^ (b.exponent - 2) := by
    have hsplit : b.top = b.exponent + (Nat.log2 b.mantissa + 1 : ℕ) := rfl
    rw [hsplit, two_zpow_add, two_zpow_eq_four_mul, Nat.cast_mul, mul_assoc]
    rfl
  refine lt_of_le_of_lt (h.inInterval hb.place).high ?_
  rw [htop]
  refine mul_lt_mul_of_pos_right ?_ (two_zpow_pos _)
  exact_mod_cast (by omega : 4 * b.mantissa + 2 < 2 ^ (Nat.log2 b.mantissa + 1) * 4)

/-- On a grid above the first there is nothing to be found. -/
theorem le_ceiling (hb : b.IsDouble) (h : ReadsAs (n * 10 ^ k) b.value) :
    k ≤ b.ceiling := by
  by_contra hlt
  obtain ⟨hlow, -, hhigh⟩ := top_bounds hb
  have hn : (1 : ℚ) ≤ n := by
    refine Nat.one_le_cast.2 (Nat.pos_of_ne_zero fun hzero => ?_)
    have hpos := h.pos hb.place hb.pos
    simp [hzero] at hpos
  have hten : (10 : ℚ) ^ (b.ceiling + 1) ≤ 10 ^ k :=
    zpow_le_zpow_right₀ (by norm_num) (by omega)
  have hbelow : (n : ℚ) * 10 ^ k < 10 ^ (b.ceiling + 1) :=
    (lt_top hb h).trans_le (powers_bound hlow hhigh).1
  linarith [mul_le_mul_of_nonneg_right hn (zpow_nonneg (by norm_num : (0 : ℚ) ≤ 10) k)]

/-- On the last grid there is something to be found. -/
theorem exists_reads (hb : b.IsDouble) (hk : k ≤ b.ceiling - 24) :
    ReadsAs ((lower b k + 1 : ℕ) * 10 ^ k) b.value := by
  obtain ⟨hlow, htop, hhigh⟩ := top_bounds hb
  obtain ⟨hdown, hup⟩ := neighbours b k
  have hstep : (10 : ℚ) ^ k < 2 ^ (b.exponent - 1) :=
    calc (10 : ℚ) ^ k ≤ 10 ^ (b.ceiling - 24) := zpow_le_zpow_right₀ (by norm_num) hk
      _ < 2 ^ (b.top - 54) := (powers_bound hlow hhigh).2
      _ ≤ 2 ^ (b.exponent - 1) := two_zpow_le (by omega)
  have hnext : ((lower b k + 1 : ℕ) : ℚ) * 10 ^ k = lower b k * 10 ^ k + 10 ^ k := by
    push_cast
    ring
  have hhalf := two_zpow_pred_eq_two_mul b.exponent
  have hvalue : b.value = 4 * (b.mantissa * 2 ^ (b.exponent - 2)) :=
    mul_two_zpow_eq_four_mul b.mantissa b.exponent
  have hpos := two_zpow_pos (b.exponent - 2)
  have hmargin : (0 : ℚ) < margin b.mantissa b.exponent * 2 ^ (b.exponent - 2) :=
    mul_pos (margin_pos _ _) hpos
  refine InInterval.readsAs ⟨by linarith, by linarith, ?_⟩ hb.place
  rintro (hv | hv)
  · linarith
  · linarith

/-- What is found in a range is found at the first place where there is something. -/
theorem findSome?_range_eq_some {α : Type} {f : ℕ → Option α} {a : α} {count : ℕ}
    (h : (List.range count).findSome? f = some a) : ∃ i, f i = some a ∧ ∀ j < i, f j = none := by
  induction count with
  | zero => cases h
  | succ count ih =>
    rw [List.range_succ, List.findSome?_append, Option.or_eq_some_iff] at h
    rcases h with h | ⟨hnone, h⟩
    · exact ih h
    · refine ⟨count, by simpa using h, fun j hj => ?_⟩
      exact List.findSome?_eq_none_iff.1 hnone j (List.mem_range.2 hj)

/-- The first grid with something to be found has the shortest decimal, and one of the grids has. -/
theorem exists_findSome? (hb : b.IsDouble) (tie : Tie) : ∃ d,
    (List.range 25).findSome? (fun i : ℕ => ((Grid.at b (b.ceiling - i)).hit? b tie).map
      fun n => (⟨n, b.ceiling - i⟩ : Digits)) = some d ∧ IsShortest b.value tie d := by
  generalize hfound : (List.range 25).findSome? _ = found
  cases found with
  | none =>
    have hlast := List.findSome?_eq_none_iff.1 hfound 24 (by decide)
    rcases hit?_cases hb tie (b.ceiling - 24) with ⟨-, hnone⟩ | ⟨n, hhit, -⟩
    · exact absurd (exists_reads hb le_rfl) (hnone _)
    · rw [Option.map_eq_none_iff, Nat.cast_ofNat, hhit] at hlast
      cases hlast
  | some d =>
    obtain ⟨i, hi, hfirst⟩ := findSome?_range_eq_some hfound
    obtain ⟨n, hhit, rfl⟩ := Option.map_eq_some_iff.1 hi
    rcases hit?_cases hb tie (b.ceiling - i) with ⟨hnone, -⟩ | ⟨n', hhit', hnearest⟩
    · rw [hhit] at hnone
      cases hnone
    · rw [hhit] at hhit'
      cases hhit'
      refine ⟨_, rfl, hnearest, fun other k hother => ?_⟩
      by_contra hlt
      -- on the grids before this one nothing is found
      have hk := le_ceiling hb hother
      have hbefore := hfirst (b.ceiling - k).toNat (by dsimp only at hlt; omega)
      have hgrid : b.ceiling - ((b.ceiling - k).toNat : ℤ) = k := by omega
      rw [Option.map_eq_none_iff, hgrid] at hbefore
      rcases hit?_cases hb tie k with ⟨-, hnone⟩ | ⟨n, hsome, -⟩
      · exact hnone other hother
      · rw [hbefore] at hsome
        cases hsome

/-- The search gives the shortest decimal of a double. -/
theorem isShortest_shortest {x : Float} {s : UnpackedFloat.Sign} {m : ℕ} {e : ℤ} {hm : 0 < m}
    (h : x.toModel.unpack = .finite s m e hm) (tie : Tie) :
    IsShortest (m * 2 ^ e) tie (shortest tie x) := by
  obtain ⟨d, hfound, hd⟩ := exists_findSome? (isDouble_ofFloat h) tie
  unfold shortest
  dsimp only
  rw [hfound, Option.getD_some]
  rwa [ofFloat_eq h] at hd

end

end SeededText.Decimal
