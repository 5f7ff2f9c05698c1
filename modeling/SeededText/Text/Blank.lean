/-!
# Blank characters

Everything that trims, separates or asks for white space in this library asks this one
question: does the character have the Unicode property `White_Space`?  The property is a
standard's data, so it stands here as a table of code point ranges and nothing else decides it.

The functions work on lists of characters, because every reader of the library does.
-/

namespace SeededText.Text

/-! ## 1. The class -/

/-- The code point ranges of the Unicode property `White_Space`, both ends included, in order. -/
def blankRanges : List (Nat × Nat) :=
  [(0x09, 0x0D), (0x20, 0x20), (0x85, 0x85), (0xA0, 0xA0), (0x1680, 0x1680), (0x2000, 0x200A),
   (0x2028, 0x2029), (0x202F, 0x202F), (0x205F, 0x205F), (0x3000, 0x3000)]

/-- A character is blank when its code point lies in one of the ranges. -/
def isBlank (c : Char) : Bool :=
  blankRanges.any fun range => range.1 ≤ c.toNat && c.toNat ≤ range.2

/-- The text is empty or holds blank characters only. -/
def allBlank (cs : List Char) : Bool :=
  cs.all isBlank

def startsBlank : List Char → Bool
  | [] => false
  | c :: _ => isBlank c

/-! ## 2. Trimming and words -/

/-- The text without its leading blank characters. -/
def trimStart (cs : List Char) : List Char :=
  cs.dropWhile isBlank

/-- The text without its trailing blank characters. -/
def trimEnd : List Char → List Char
  | [] => []
  | c :: cs =>
    match trimEnd cs with
    | [] => if isBlank c then [] else [c]
    | d :: ds => c :: d :: ds

/-- The text without the blank characters at either end. -/
def trim (cs : List Char) : List Char :=
  trimEnd (trimStart cs)

/-- The pieces between characters of a class, empty pieces included: one more than the class has
characters in the text. -/
def splitAtEach (p : Char → Bool) : List Char → List (List Char)
  | [] => [[]]
  | c :: cs =>
    if p c then
      [] :: splitAtEach p cs
    else
      match splitAtEach p cs with
      | [] => [[c]]
      | piece :: pieces => (c :: piece) :: pieces

/-- The maximal runs of characters that are not blank. -/
def words (cs : List Char) : List (List Char) :=
  (splitAtEach isBlank cs).filter fun piece => !piece.isEmpty

/-! ## 3. What trimming leaves -/

theorem trimStart_length_le (cs : List Char) : (trimStart cs).length ≤ cs.length :=
  (List.dropWhile_sublist isBlank).length_le

/-- What `trimStart` leaves is empty or begins with a character that is not blank. -/
theorem startsBlank_trimStart (cs : List Char) : startsBlank (trimStart cs) = false := by
  induction cs with
  | nil => rfl
  | cons c cs ih =>
    by_cases h : isBlank c
    · simpa [trimStart, List.dropWhile_cons, h] using ih
    · simp [trimStart, h, startsBlank]

/-- Trimming a text in front leaves what follows it alone, unless the text is blank. -/
theorem trimStart_append {cs : List Char} (h : trimStart cs ≠ []) (after : List Char) :
    trimStart (cs ++ after) = trimStart cs ++ after := by
  induction cs with
  | nil => exact absurd rfl h
  | cons c cs ih =>
    by_cases hc : isBlank c
    · simpa [trimStart, List.dropWhile_cons, hc] using ih (by simpa [trimStart, hc] using h)
    · simp [trimStart, hc]

/-- Blank text in front is trimmed away. -/
theorem trimStart_append_of_allBlank {cs : List Char} (h : allBlank cs = true)
    (after : List Char) : trimStart (cs ++ after) = trimStart after := by
  induction cs with
  | nil => rfl
  | cons c cs ih =>
    simp only [allBlank, List.all_cons, Bool.and_eq_true] at h
    simpa [trimStart, List.dropWhile_cons, h.1] using ih h.2

/-- What `trimEnd` takes away is blank. -/
theorem exists_trimEnd_append (cs : List Char) :
    ∃ tail, allBlank tail = true ∧ cs = trimEnd cs ++ tail := by
  induction cs with
  | nil => exact ⟨[], rfl, rfl⟩
  | cons c cs ih =>
    obtain ⟨tail, htail, hcs⟩ := ih
    cases h : trimEnd cs with
    | nil =>
      rw [h] at hcs
      by_cases hc : isBlank c
      · exact ⟨c :: cs, by simp_all [allBlank], by simp [trimEnd, h, hc]⟩
      · exact ⟨tail, htail, by simpa [trimEnd, h, hc] using hcs⟩
    | cons d ds =>
      rw [h] at hcs
      exact ⟨tail, htail, by simpa [trimEnd, h] using hcs⟩

/-- A text that `trimEnd` leaves nothing of is blank, and conversely. -/
theorem trimEnd_eq_nil_iff (cs : List Char) : trimEnd cs = [] ↔ allBlank cs = true := by
  induction cs with
  | nil => simp [trimEnd, allBlank]
  | cons c cs ih =>
    cases h : trimEnd cs with
    | nil =>
      have : allBlank cs = true := ih.1 h
      by_cases hc : isBlank c <;> simp_all [trimEnd, allBlank]
    | cons d ds =>
      have : ¬ allBlank cs = true := fun hb => by simp [ih.2 hb] at h
      simp_all [trimEnd, allBlank]

end SeededText.Text
