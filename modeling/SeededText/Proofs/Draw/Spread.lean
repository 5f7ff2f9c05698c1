import Mathlib.Data.Nat.ModEq
import Mathlib.Data.Nat.Prime.Basic
import SeededText.Draw.Hash
import SeededText.Draw.Key

/-!
# Texts that differ in one byte

The hash of a text loses nothing that one byte can tell.  Each step takes the word before it to the
word after it one to one, because a factor that is odd can be divided by modulo `2 ^ 64`; and with
the word held fixed it is the byte that is taken one to one.  So two texts that differ in one byte
part there, stay apart through whatever follows, and the finisher, which is a chain of steps that can
be undone, keeps them apart as well.

A numeral is written in digits of one byte each.  So the draws of two occurrences, or of two
variations, never share a hash where the numbers differ in one digit.
-/

namespace SeededText.Draw

open Decimal

/-! ## 1. Steps that can be undone -/

section

variable {x y : UInt64}

/-- An odd factor can be divided by, as it has no divisor with the number of words in common. -/
theorem eq_of_mul_odd {factor : UInt64} (hodd : factor.toNat % 2 = 1)
    (h : x * factor = y * factor) : x = y := by
  have hcoprime : Nat.gcd (2 ^ 64) factor.toNat = 1 :=
    (Nat.coprime_two_left.2 (Nat.odd_iff.2 hodd)).pow_left 64
  have hmod : x.toNat * factor.toNat ≡ y.toNat * factor.toNat [MOD 2 ^ 64] := by
    have htoNat := congrArg UInt64.toNat h
    rwa [UInt64.toNat_mul, UInt64.toNat_mul] at htoNat
  have hcancel := Nat.ModEq.cancel_right_of_coprime hcoprime hmod
  exact UInt64.toNat_inj.1 (Nat.ModEq.eq_of_lt_of_lt hcancel x.toNat_lt y.toNat_lt)

/-- What is mixed in comes from above the middle, so mixing it in again takes it out. -/
theorem foldHigh_foldHigh (x : UInt64) : foldHigh (foldHigh x) = x := by
  have hnone : (x >>> 33) >>> 33 = 0 := by
    apply UInt64.toBitVec_inj.1
    show (x.toBitVec >>> 33) >>> 33 = 0#64
    rw [← BitVec.shiftRight_add, BitVec.ushiftRight_eq_zero (by decide)]
  rw [foldHigh, foldHigh, UInt64.shiftRight_xor, hnone, UInt64.xor_zero, UInt64.xor_assoc,
    UInt64.xor_self, UInt64.xor_zero]

theorem foldHigh_inj (h : foldHigh x = foldHigh y) : x = y := by
  rw [← foldHigh_foldHigh x, h, foldHigh_foldHigh]

theorem finish_inj (h : finish x = finish y) : x = y := by
  have hlast := foldHigh_inj h
  have hmiddle := foldHigh_inj (eq_of_mul_odd (by decide) hlast)
  exact foldHigh_inj (eq_of_mul_odd (by decide) hmiddle)

theorem step_inj_hash {byte : UInt8} (h : step x byte = step y byte) : x = y :=
  (UInt64.xor_left_inj _).1 (eq_of_mul_odd (by decide) h)

theorem step_inj_byte {a b : UInt8} (h : step x a = step x b) : a = b :=
  UInt8.toUInt64_inj.1 ((UInt64.xor_right_inj x).1 (eq_of_mul_odd (by decide) h))

/-- Words that are apart stay apart, whatever bytes follow. -/
theorem foldl_step_inj {bytes : List UInt8} (h : bytes.foldl step x = bytes.foldl step y) :
    x = y := by
  induction bytes generalizing x y with
  | nil => exact h
  | cons byte bytes ih => exact step_inj_hash (ih h)

end

/-! ## 2. One byte -/

/-- The bytes of a text. -/
def bytes (material : String) : List UInt8 :=
  material.toUTF8.data.toList

theorem absorbBytes_inj {before after : List UInt8} {a b : UInt8}
    (h : absorbBytes (before ++ a :: after) = absorbBytes (before ++ b :: after)) : a = b := by
  rw [absorbBytes, absorbBytes, List.foldl_append, List.foldl_append] at h
  exact step_inj_byte (foldl_step_inj h)

theorem seedHash_ne_of_bytes {s t : String} {before after : List UInt8} {a b : UInt8} (hne : a ≠ b)
    (hs : bytes s = before ++ a :: after) (ht : bytes t = before ++ b :: after) :
    seedHash s ≠ seedHash t := by
  intro h
  have habsorb : absorbBytes (bytes s) = absorbBytes (bytes t) := finish_inj h
  rw [hs, ht] at habsorb
  exact hne (absorbBytes_inj habsorb)

/-! ## 3. One digit -/

/-- The numbers are written with the same number of digits, and one of the digits differs. -/
def DifferInDigit (m n : Nat) : Prop :=
  ∃ before c d after, c ≠ d ∧ digitsOf m = before ++ c :: after ∧ digitsOf n = before ++ d :: after

theorem bytes_append (s t : String) : bytes (s ++ t) = bytes s ++ bytes t := by
  simp [bytes]

theorem bytes_ofList (cs : List Char) :
    bytes (String.ofList cs) = cs.flatMap String.utf8EncodeChar := by
  rw [bytes, String.toUTF8, String.toByteArray_ofList, List.utf8Encode]
  exact List.toList_data_toByteArray

theorem val_le_of_isDigit {c : Char} (hc : c.isDigit = true) : c.val ≤ 57 := by
  rw [Char.isDigit, Bool.and_eq_true, decide_eq_true_iff, decide_eq_true_iff] at hc
  exact hc.2

/-- A digit is written in one byte. -/
theorem utf8EncodeChar_of_isDigit {c : Char} (hc : c.isDigit = true) :
    String.utf8EncodeChar c = [c.val.toUInt8] :=
  String.utf8EncodeChar_eq_singleton
    (Char.utf8Size_eq_one_iff.2 (UInt32.le_trans (val_le_of_isDigit hc) (by decide)))

/-- Digits in the same byte are the same. -/
theorem isDigit_inj {c d : Char} (hc : c.isDigit = true) (hd : d.isDigit = true)
    (h : c.val.toUInt8 = d.val.toUInt8) : c = d := by
  have hc := UInt32.le_iff_toNat_le.1 (val_le_of_isDigit hc)
  have hd := UInt32.le_iff_toNat_le.1 (val_le_of_isDigit hd)
  have htoNat := congrArg UInt8.toNat h
  rw [UInt32.toNat_toUInt8, UInt32.toNat_toUInt8] at htoNat
  apply Char.ext
  apply UInt32.toNat_inj.1
  simp only [UInt32.reduceToNat] at hc hd
  omega

/-- Texts that differ in one digit of a number have different hashes. -/
theorem seedHash_ne_of_digit {m n : Nat} (h : DifferInDigit m n) (front back : String) :
    seedHash (front ++ naturalText m ++ back) ≠ seedHash (front ++ naturalText n ++ back) := by
  obtain ⟨before, c, d, after, hne, hm, hn⟩ := h
  have hc : c.isDigit = true :=
    Nat.isDigit_of_mem_toDigits (by decide) (by decide) (hm ▸ List.mem_append_cons_self)
  have hd : d.isDigit = true :=
    Nat.isDigit_of_mem_toDigits (by decide) (by decide) (hn ▸ List.mem_append_cons_self)
  have hbytes : ∀ (k : Nat) (e : Char), e.isDigit = true → digitsOf k = before ++ e :: after →
      bytes (front ++ naturalText k ++ back)
        = (bytes front ++ before.flatMap String.utf8EncodeChar)
          ++ e.val.toUInt8 :: (after.flatMap String.utf8EncodeChar ++ bytes back) := by
    intro k e he hk
    rw [bytes_append, bytes_append, naturalText, bytes_ofList, hk, List.flatMap_append,
      List.flatMap_cons, utf8EncodeChar_of_isDigit he]
    simp
  exact seedHash_ne_of_bytes (fun hbyte => hne (isDigit_inj hc hd hbyte))
    (hbytes m c hc hm) (hbytes n d hd hn)

/-- Texts that differ in one byte have different hashes.  In particular the draws of two occurrences
of a slot, and those of two variations, have different hashes if the two numbers differ in one
digit. -/
theorem seedHash_apart :
    (∀ (s t : String) (before after : List UInt8) (a b : UInt8), a ≠ b →
      bytes s = before ++ a :: after → bytes t = before ++ b :: after →
        seedHash s ≠ seedHash t) ∧
    (∀ (seed : String) (variation : Nat) (slot : Slot) (m n : Nat), DifferInDigit m n →
      seedHash (Key.material (variationSeed seed variation) ⟨slot, m⟩)
        ≠ seedHash (Key.material (variationSeed seed variation) ⟨slot, n⟩)) ∧
    ∀ (seed : String) (key : Key) (m n : Nat), DifferInDigit m n →
      seedHash (key.material (variationSeed seed m))
        ≠ seedHash (key.material (variationSeed seed n)) := by
  refine ⟨?_, ?_, ?_⟩
  · intro s t before after a b hne hs ht
    exact seedHash_ne_of_bytes hne hs ht
  · intro seed variation slot m n h
    have hne := seedHash_ne_of_digit h (variationSeed seed variation ++ "-" ++ slot.label ++ "-") ""
    simpa [Key.material] using hne
  · intro seed key m n h
    have hne := seedHash_ne_of_digit h (seed ++ "-variation-")
      ("-" ++ key.slot.label ++ "-" ++ naturalText key.occurrence)
    simpa [Key.material, variationSeed, String.append_assoc] using hne

/-- A byte in the middle of a character, a digit in front of others, and one at the end. -/
theorem seedHash_apart_accent :
    bytes "caf\u00e9s" = [99, 97, 102, 195] ++ 169 :: [115] ∧
    bytes "caf\u00e8s" = [99, 97, 102, 195] ++ 168 :: [115] ∧
    seedHash "caf\u00e9s" ≠ seedHash "caf\u00e8s" ∧
    DifferInDigit 109 209 ∧
    seedHash (Key.material (variationSeed "s" 3) ⟨.variable "x", 109⟩)
      ≠ seedHash (Key.material (variationSeed "s" 3) ⟨.variable "x", 209⟩) ∧
    DifferInDigit 40 41 ∧
    seedHash (Key.material (variationSeed "s" 40) ⟨.optionGroup 7, 0⟩)
      ≠ seedHash (Key.material (variationSeed "s" 41) ⟨.optionGroup 7, 0⟩) := by
  have hfront : DifferInDigit 109 209 :=
    ⟨[], '1', '2', ['0', '9'], by decide, by decide, by decide⟩
  have hend : DifferInDigit 40 41 := ⟨['4'], '0', '1', [], by decide, by decide, by decide⟩
  have hacute : bytes "caf\u00e9s" = [99, 97, 102, 195] ++ 169 :: [115] := by decide
  have hgrave : bytes "caf\u00e8s" = [99, 97, 102, 195] ++ 168 :: [115] := by decide
  exact ⟨hacute, hgrave, seedHash_apart.1 _ _ _ _ 169 168 (by decide) hacute hgrave,
    hfront, seedHash_apart.2.1 "s" 3 (.variable "x") 109 209 hfront,
    hend, seedHash_apart.2.2 "s" ⟨.optionGroup 7, 0⟩ 40 41 hend⟩

end SeededText.Draw
