import SeededText.Text.Blank
import SeededText.Text.Search
import SeededText.Template.Basic

/-!
# Tags

Tags stand between double braces or between double brackets.  What stands there, blanks at both
ends aside, decides which tag it is, or that it is none: `Tag.ofBraces?` and `Tag.ofBrackets?`.

The end of a tag may be far away, and most marks that open no tag can be told by the characters
right after them: `beginsBraceTag` and `beginsOptionTag` look at these alone, and
`beginsBraceTag_of_ofBraces?` and `beginsOptionTag_of_ofBrackets?` say that they miss no tag.
-/

namespace SeededText

open Text

/-! ## 1. Tags -/

/-- A tag, by what it does. -/
inductive Tag where
  | openIf (condition : List Char)
  | turnElse
  | closeIf
  | variable (name : List Char)
  | openOptions
  | closeOptions
  | openOption (attributes : List Char)
  /-- opens an option without attributes, which none may be -/
  | bareOption
  | closeOption
deriving DecidableEq, Repr

/-- The tag that stands between double braces, if the trimmed content is one. -/
def Tag.ofBraces? (content : List Char) : Option Tag :=
  match content with
  | '#' :: 'i' :: 'f' :: rest =>
    if rest.isEmpty || startsBlank rest then some (.openIf (trim rest)) else none
  | _ =>
    if content = ['e', 'l', 's', 'e'] then some .turnElse
    else if content = ['/', 'i', 'f'] then some .closeIf
    else if isIdentifier content then some (.variable content)
    else none

/-- The tag that stands between double brackets, if the trimmed content is one. -/
def Tag.ofBrackets? (content : List Char) : Option Tag :=
  match content with
  | 'o' :: 'p' :: 't' :: 'i' :: 'o' :: 'n' :: rest =>
    if rest = ['s'] then some .openOptions
    else if rest.isEmpty then some .bareOption
    else if startsBlank rest then some (.openOption rest)
    else none
  | '/' :: 'o' :: 'p' :: 't' :: 'i' :: 'o' :: 'n' :: rest =>
    if rest = ['s'] then some .closeOptions
    else if rest.isEmpty then some .closeOption
    else none
  | _ => none

/-! ## 2. What a tag begins with

Whether double braces or brackets open a tag can be seen from the text right after them, before
the closing mark is looked for.  This is worth knowing, because the mark may be far away. -/

/-- Nothing but blanks stands in front of the mark. -/
def closesWith (mark cs : List Char) : Bool :=
  (stripFront? mark (trimStart cs)).isSome

/-- The text after double braces begins as a tag would. -/
def beginsBraceTag (cs : List Char) : Bool :=
  match trimStart cs with
  | '#' :: 'i' :: 'f' :: _ => true
  | '/' :: 'i' :: 'f' :: rest => closesWith ['\x7d', '\x7d'] rest
  | cs => closesWith ['\x7d', '\x7d'] (cs.dropWhile isNameChar)

/-- The text after double brackets begins as an option tag would. -/
def beginsOptionTag (cs : List Char) : Bool :=
  match trimStart cs with
  | 'o' :: 'p' :: 't' :: 'i' :: 'o' :: 'n' :: rest =>
    startsBlank rest || closesWith [']', ']'] rest
      || (rest.head? = some 's' && closesWith [']', ']'] rest.tail)
  | '/' :: 'o' :: 'p' :: 't' :: 'i' :: 'o' :: 'n' :: rest =>
    closesWith [']', ']'] rest || (rest.head? = some 's' && closesWith [']', ']'] rest.tail)
  | _ => false

/-- A text after double brackets that are never closed begins as an option tag would. -/
def looksLikeOption (cs : List Char) : Bool :=
  match trimStart cs with
  | 'o' :: 'p' :: 't' :: 'i' :: 'o' :: 'n' :: rest =>
    startsBlank rest || rest.head? = some 's'
  | '/' :: 'o' :: 'p' :: 't' :: 'i' :: 'o' :: 'n' :: _ => true
  | _ => false

/-! ## 3. Tags begin as tags do -/

theorem closesWith_append {mark tail : List Char} (hmark : startsBlank mark = false)
    (hne : mark ≠ []) (htail : allBlank tail = true) (after : List Char) :
    closesWith mark (tail ++ (mark ++ after)) = true := by
  obtain ⟨c, mark, rfl⟩ := List.exists_cons_of_ne_nil hne
  rw [closesWith, trimStart_append_of_allBlank htail, List.cons_append, trimStart,
    List.dropWhile_cons_of_neg (by simpa [startsBlank] using hmark), ← List.cons_append,
    stripFront?_eq_some_iff.2 rfl]
  rfl

/-- A trimmed text that is not empty stands in front of the text, blanks aside. -/
theorem exists_trimStart_append {content : List Char} (h : trim content ≠ []) :
    ∃ tail, allBlank tail = true
      ∧ ∀ after, trimStart (content ++ after) = trim content ++ (tail ++ after) := by
  obtain ⟨tail, htail, hcs⟩ := exists_trimEnd_append (trimStart content)
  refine ⟨tail, htail, fun after => ?_⟩
  have hne : trimStart content ≠ [] := fun hnil => h (by simp [trim, hnil, trimEnd])
  rw [trimStart_append hne, ← List.append_assoc]
  exact congrArg (· ++ after) hcs

theorem isNameChar_of_isLetter {c : Char} (h : isLetter c = true) : isNameChar c = true := by
  simp [isNameChar, h]

theorem isBlank_of_isNameChar {c : Char} (h : isNameChar c = true) : isBlank c = false := by
  have hc : (48 ≤ c.toNat ∧ c.toNat ≤ 57) ∨ (65 ≤ c.toNat ∧ c.toNat ≤ 90) ∨ c.toNat = 95
      ∨ (97 ≤ c.toNat ∧ c.toNat ≤ 122) := by
    simp only [isNameChar, isLetter, Bool.or_eq_true, Bool.and_eq_true, decide_eq_true_eq,
      Char.le_def, UInt32.le_iff_toNat_le] at h
    rcases h with ((h | h) | h) | h
    · exact .inr (.inr (.inr h))
    · exact .inr (.inl h)
    · exact .inl h
    · exact .inr (.inr (.inl (by rw [h]; rfl)))
  simp only [isBlank, blankRanges, List.any_cons, List.any_nil, Bool.or_false, Bool.or_eq_false_iff,
    Bool.and_eq_false_iff, decide_eq_false_iff_not]
  omega

/-- A name, blanks and closing braces begin as a tag would. -/
theorem closesWith_dropWhile {name tail : List Char} (hname : name.all isNameChar = true)
    (htail : allBlank tail = true) (after : List Char) :
    closesWith ['\x7d', '\x7d']
      ((name ++ (tail ++ (['\x7d', '\x7d'] ++ after))).dropWhile isNameChar) = true := by
  have hdrop : (name ++ (tail ++ (['\x7d', '\x7d'] ++ after))).dropWhile isNameChar
      = tail ++ (['\x7d', '\x7d'] ++ after) := by
    rw [List.dropWhile_append_of_pos (by simpa using hname)]
    cases tail with
    | nil => rfl
    | cons c tail =>
      have hc : isBlank c = true := by simp_all [allBlank]
      have : isNameChar c ≠ true := fun h => by simp [isBlank_of_isNameChar h] at hc
      exact List.dropWhile_cons_of_neg this
  rw [hdrop]
  exact closesWith_append rfl (by simp) htail after

/-- Only what begins as a tag can be one between double braces. -/
theorem beginsBraceTag_of_ofBraces? {content : List Char} {tag : Tag}
    (h : Tag.ofBraces? (trim content) = some tag) (after : List Char) :
    beginsBraceTag (content ++ (['\x7d', '\x7d'] ++ after)) = true := by
  have hne : trim content ≠ [] := fun hnil => by
    rw [hnil] at h
    simp [Tag.ofBraces?, isIdentifier] at h
  obtain ⟨tail, htail, hcs⟩ := exists_trimStart_append hne
  unfold beginsBraceTag
  rw [hcs]
  generalize trim content = t at h hne
  unfold Tag.ofBraces? at h
  split at h
  · rfl
  · next hif =>
    split at h
    · next helse => subst helse; exact closesWith_dropWhile (by decide) htail after
    · split at h
      · next hend => subst hend; exact closesWith_append rfl (by simp) htail after
      · split at h
        · next hid =>
          cases t with
          | nil => exact absurd rfl hne
          | cons c cs =>
            simp only [isIdentifier, Bool.and_eq_true] at hid
            have hall : (c :: cs).all isNameChar = true := by
              simp [isNameChar_of_isLetter hid.1, hid.2]
            split
            · rfl
            · next heq => simp at heq; simp [heq.1, isLetter] at hid
            · exact closesWith_dropWhile hall htail after
        · simp at h

/-- Only what begins as an option tag can be one between double brackets. -/
theorem beginsOptionTag_of_ofBrackets? {content : List Char} {tag : Tag}
    (h : Tag.ofBrackets? (trim content) = some tag) (after : List Char) :
    beginsOptionTag (content ++ ([']', ']'] ++ after)) = true := by
  have hne : trim content ≠ [] := fun hnil => by
    rw [hnil] at h
    simp [Tag.ofBrackets?] at h
  obtain ⟨tail, htail, hcs⟩ := exists_trimStart_append hne
  have hcloses : closesWith [']', ']'] (tail ++ ']' :: ']' :: after) = true :=
    closesWith_append rfl (by simp) htail after
  unfold beginsOptionTag
  rw [hcs]
  generalize trim content = t at h
  unfold Tag.ofBrackets? at h
  split at h
  · next rest =>
    simp only [List.cons_append]
    split at h
    · next hs => subst hs; simp [hcloses]
    · split at h
      · next hnil => simp at hnil; subst hnil; simp [hcloses]
      · split at h
        · next hblank =>
          cases rest with
          | nil => simp [startsBlank] at hblank
          | cons c cs => simp_all [startsBlank]
        · simp at h
  · next rest =>
    simp only [List.cons_append]
    split at h
    · next hs => subst hs; simp [hcloses]
    · split at h
      · next hnil => simp at hnil; subst hnil; simp [hcloses]
      · simp at h
  · simp at h

end SeededText
