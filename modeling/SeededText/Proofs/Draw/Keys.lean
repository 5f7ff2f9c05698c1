import SeededText.Draw.Key
import SeededText.Proofs.Template.Spelling

/-!
# Seed materials tell draws apart

The material of a draw joins the seed, the variation's index, the slot and the occurrence by dashes.
A seed may be any text, with dashes of its own and with `-variation-` in it, so the parts are told
apart from the right: numerals and variable names hold no dash, so the last dash is the one in front
of the occurrence, and so on.  A variable may be called `option`, but then an index stands before its
name where the word `variation` or a numeral stands before that of a group.
-/

namespace SeededText.Draw

open SeededText Decimal

/-! ## 1. Cutting at the last dash -/

/-- What stands after the last of some separators is told apart from what stands before it. -/
theorem append_cons_inj_right {α : Type} {x : α} {a a' b b' : List α} (hb : x ∉ b) (hb' : x ∉ b')
    (h : a ++ x :: b = a' ++ x :: b') : a = a' ∧ b = b' := by
  rcases List.append_eq_append_iff.1 h with ⟨c, ha, hc⟩ | ⟨c, ha, hc⟩
  · cases c with
    | nil =>
      rw [List.append_nil] at ha
      exact ⟨ha.symm, (List.cons.inj hc).2⟩
    | cons y c =>
      rw [(List.cons.inj hc).2] at hb
      exact absurd (List.mem_append_right c List.mem_cons_self) hb
  · cases c with
    | nil =>
      rw [List.append_nil] at ha
      exact ⟨ha, (List.cons.inj hc).2.symm⟩
    | cons y c =>
      rw [(List.cons.inj hc).2] at hb'
      exact absurd (List.mem_append_right c List.mem_cons_self) hb'

theorem digitsOf_inj {m n : Nat} (h : digitsOf m = digitsOf n) : m = n :=
  calc m = Nat.ofDigitChars 10 (digitsOf m) 0 := Nat.ofDigitChars_ten_toDigits.symm
    _ = Nat.ofDigitChars 10 (digitsOf n) 0 := by rw [h]
    _ = n := Nat.ofDigitChars_ten_toDigits

theorem not_mem_digitsOf {c : Char} (hc : c.isDigit = false) (n : Nat) : c ∉ digitsOf n := by
  intro hmem
  have hdigit := Nat.isDigit_of_mem_toDigits (by decide) (by decide) hmem
  rw [hc] at hdigit
  cases hdigit

/-! ## 2. The parts of a material -/

/-- The slot is that of a group, or of a variable whose name is an identifier. -/
def Slot.Named : Slot → Prop
  | .variable name => isIdentifier name.toList = true
  | .optionGroup _ => True

theorem Slot.Named.not_mem {name : String} (h : (Slot.variable name).Named) : '-' ∉ name.toList := by
  intro hmem
  have hchar := isNameChar_of_isIdentifier h _ hmem
  simp [isNameChar, isLetter] at hchar

theorem toList_variationSeed (seed : String) (variation : Nat) :
    (variationSeed seed variation).toList
      = (seed.toList ++ "-variation".toList) ++ '-' :: digitsOf variation := by
  simp [variationSeed, naturalText]

theorem toList_material (material : String) (key : Key) :
    (key.material material).toList
      = (material.toList ++ '-' :: key.slot.label.toList) ++ '-' :: digitsOf key.occurrence := by
  simp [Key.material, naturalText]

theorem toList_label_optionGroup (index : Nat) :
    (Slot.optionGroup index).label.toList = "option".toList ++ '-' :: digitsOf index := by
  simp [Slot.label, naturalText]

theorem not_mem_digits (n : Nat) : '-' ∉ digitsOf n :=
  not_mem_digitsOf rfl n

theorem variationSeed_inj {seed seed' : String} {variation variation' : Nat}
    (h : variationSeed seed variation = variationSeed seed' variation') :
    seed = seed' ∧ variation = variation' := by
  have hlists := congrArg String.toList h
  rw [toList_variationSeed, toList_variationSeed] at hlists
  obtain ⟨hseed, hdigits⟩ := append_cons_inj_right (not_mem_digits _) (not_mem_digits _) hlists
  exact ⟨String.toList_inj.1 (List.append_cancel_right hseed), digitsOf_inj hdigits⟩

/-- A name that stands where a group's number does has the word `option` before it, which is no
index. -/
theorem not_option_before {seed : String} {variation : Nat} {a : List Char} :
    (variationSeed seed variation).toList ≠ a ++ '-' :: "option".toList := by
  intro h
  rw [toList_variationSeed] at h
  obtain ⟨-, hdigits⟩ := append_cons_inj_right (not_mem_digits _) (by decide) h
  have hmem : 'o' ∈ digitsOf variation := by rw [hdigits]; decide
  exact not_mem_digitsOf rfl variation hmem

theorem label_inj {seed seed' : String} {variation variation' : Nat} : ∀ {slot slot' : Slot},
    slot.Named → slot'.Named →
      (variationSeed seed variation).toList ++ '-' :: slot.label.toList
        = (variationSeed seed' variation').toList ++ '-' :: slot'.label.toList →
      variationSeed seed variation = variationSeed seed' variation' ∧ slot = slot'
  | .variable name, .variable name', hslot, hslot', h => by
    obtain ⟨hseed, hname⟩ := append_cons_inj_right hslot.not_mem hslot'.not_mem h
    exact ⟨String.toList_inj.1 hseed, congrArg Slot.variable (String.toList_inj.1 hname)⟩
  | .variable name, .optionGroup index, hslot, _, h => by
    rw [toList_label_optionGroup, ← List.cons_append, ← List.append_assoc] at h
    exact absurd (append_cons_inj_right hslot.not_mem (not_mem_digits _) h).1 not_option_before
  | .optionGroup index, .variable name, _, hslot', h => by
    rw [toList_label_optionGroup, ← List.cons_append, ← List.append_assoc] at h
    have hseed := (append_cons_inj_right (not_mem_digits _) hslot'.not_mem h).1
    exact absurd hseed.symm not_option_before
  | .optionGroup index, .optionGroup index', _, _, h => by
    rw [toList_label_optionGroup, toList_label_optionGroup, ← List.cons_append, ← List.append_assoc,
      ← List.cons_append, ← List.append_assoc] at h
    obtain ⟨hseed, hdigits⟩ := append_cons_inj_right (not_mem_digits _) (not_mem_digits _) h
    exact ⟨String.toList_inj.1 (List.append_cancel_right hseed),
      congrArg Slot.optionGroup (digitsOf_inj hdigits)⟩

/-- Two draws of named slots have the same material only if they are the same draw. -/
theorem material_inj {seed seed' : String} {variation variation' : Nat} {key key' : Key}
    (hkey : key.slot.Named) (hkey' : key'.slot.Named)
    (h : key.material (variationSeed seed variation)
      = key'.material (variationSeed seed' variation')) :
    seed = seed' ∧ variation = variation' ∧ key = key' := by
  obtain ⟨slot, occurrence⟩ := key
  obtain ⟨slot', occurrence'⟩ := key'
  have hlists := congrArg String.toList h
  rw [toList_material, toList_material] at hlists
  obtain ⟨hlabel, hdigits⟩ := append_cons_inj_right (not_mem_digits _) (not_mem_digits _) hlists
  obtain ⟨hseed, rfl⟩ := label_inj hkey hkey' hlabel
  obtain ⟨rfl, rfl⟩ := variationSeed_inj hseed
  obtain rfl := digitsOf_inj hdigits
  exact ⟨rfl, rfl, rfl⟩

end SeededText.Draw
