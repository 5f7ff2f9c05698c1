import SeededText.Template.Tag
import SeededText.Template.Fault

/-!
# The pieces of a template text

A template text is a sequence of pieces: plain text and tags.  What stands between double braces
or double brackets decides whether it is a tag: if not, the two opening characters are plain text
and the next piece begins right after them.

`scan` takes the first piece off a text, and `pieces` takes all of them.  No character is lost:
`source_pieces` says that the pieces of a text without a lexical fault make up the text.
-/

namespace SeededText

open Text

/-! ## 1. The first piece -/

/-- A piece of a template text, with the characters it was read from. -/
inductive Piece where
  /-- characters that stand for themselves -/
  | plain (text : List Char)
  | tag (source : List Char) (tag : Tag)
deriving DecidableEq, Repr

def Piece.source : Piece → List Char
  | .plain text => text
  | .tag source _ => source

/-- The text begins with double braces or double brackets. -/
def startsMark : List Char → Bool
  | '\x7b' :: '\x7b' :: _ => true
  | '[' :: '[' :: _ => true
  | _ => false

/-- The longest run in which no mark begins. -/
def plainRun : List Char → List Char
  | [] => []
  | c :: cs => if startsMark (c :: cs) then [] else c :: plainRun cs

/-- What stands at the front of a text. -/
inductive Scan where
  | done
  /-- a tag begins that is never closed -/
  | fault (cause : TemplateCause)
  /-- a piece and the text after it -/
  | piece (piece : Piece) (rest : List Char)
deriving DecidableEq, Repr

/-- The piece after double braces: a tag if they are closed around one. -/
def scanBraces (cs : List Char) : Scan :=
  if beginsBraceTag cs then
    match cut? ['\x7d', '\x7d'] cs with
    | none => .fault .unterminatedVariable
    | some (content, rest) =>
      match Tag.ofBraces? (trim content) with
      | some tag =>
        .piece (.tag ('\x7b' :: '\x7b' :: content ++ ['\x7d', '\x7d']) tag) rest
      | none => .piece (.plain ['\x7b', '\x7b']) cs
  else if holds ['\x7d', '\x7d'] cs then .piece (.plain ['\x7b', '\x7b']) cs
  else .fault .unterminatedVariable

/-- The piece after double brackets: a tag if they are closed around one. -/
def scanBrackets (cs : List Char) : Scan :=
  if beginsOptionTag cs then
    match cut? [']', ']'] cs with
    | none =>
      if looksLikeOption cs then .fault (.invalidOptionTag .missingClose)
      else .piece (.plain ['[', '[']) cs
    | some (content, rest) =>
      match Tag.ofBrackets? (trim content) with
      | some tag => .piece (.tag ('[' :: '[' :: content ++ [']', ']']) tag) rest
      | none => .piece (.plain ['[', '[']) cs
  else if looksLikeOption cs && !holds [']', ']'] cs then
    .fault (.invalidOptionTag .missingClose)
  else
    .piece (.plain ['[', '[']) cs

def scan : List Char → Scan
  | [] => .done
  | '\x7b' :: '\x7b' :: cs => scanBraces cs
  | '[' :: '[' :: cs => scanBrackets cs
  | c :: cs =>
    let run := plainRun cs
    .piece (.plain (c :: run)) (cs.drop run.length)

/-! ## 2. All pieces -/

theorem plainRun_append_drop (cs : List Char) :
    plainRun cs ++ cs.drop (plainRun cs).length = cs := by
  induction cs with
  | nil => rfl
  | cons c cs ih =>
    unfold plainRun
    split
    · rfl
    · simpa using ih

/-- What double braces open, without a look at how it begins. -/
theorem scanBraces_eq (cs : List Char) :
    scanBraces cs =
      match cut? ['\x7d', '\x7d'] cs with
      | none => .fault .unterminatedVariable
      | some (content, rest) =>
        match Tag.ofBraces? (trim content) with
        | some tag =>
          .piece (.tag ('\x7b' :: '\x7b' :: content ++ ['\x7d', '\x7d']) tag) rest
        | none => .piece (.plain ['\x7b', '\x7b']) cs := by
  unfold scanBraces
  by_cases hbegins : beginsBraceTag cs = true
  · rw [if_pos hbegins]
  · rw [if_neg hbegins, holds_eq_isSome_cut?]
    cases hcut : cut? ['\x7d', '\x7d'] cs with
    | none => rfl
    | some parts =>
      obtain ⟨content, rest⟩ := parts
      have hcs := cut?_eq_some hcut
      cases htag : Tag.ofBraces? (trim content) with
      | none => simp [htag]
      | some tag =>
        rw [hcs, List.append_assoc] at hbegins
        exact absurd (beginsBraceTag_of_ofBraces? htag rest) hbegins

/-- What double brackets open, without a look at how it begins. -/
theorem scanBrackets_eq (cs : List Char) :
    scanBrackets cs =
      match cut? [']', ']'] cs with
      | none =>
        if looksLikeOption cs then .fault (.invalidOptionTag .missingClose)
        else .piece (.plain ['[', '[']) cs
      | some (content, rest) =>
        match Tag.ofBrackets? (trim content) with
        | some tag => .piece (.tag ('[' :: '[' :: content ++ [']', ']']) tag) rest
        | none => .piece (.plain ['[', '[']) cs := by
  unfold scanBrackets
  by_cases hbegins : beginsOptionTag cs = true
  · rw [if_pos hbegins]
  · rw [if_neg hbegins, holds_eq_isSome_cut?]
    cases hcut : cut? [']', ']'] cs with
    | none => simp
    | some parts =>
      obtain ⟨content, rest⟩ := parts
      have hcs := cut?_eq_some hcut
      cases htag : Tag.ofBrackets? (trim content) with
      | none => simp [htag]
      | some tag =>
        rw [hcs, List.append_assoc] at hbegins
        exact absurd (beginsOptionTag_of_ofBrackets? htag rest) hbegins

theorem source_scanBraces {cs rest : List Char} {p : Piece} (h : scanBraces cs = .piece p rest) :
    p.source ++ rest = '\x7b' :: '\x7b' :: cs := by
  rw [scanBraces_eq] at h
  split at h
  · simp at h
  · next content after hcut =>
    have := cut?_eq_some hcut
    split at h <;> simp only [Scan.piece.injEq] at h <;> simp [← h.1, ← h.2, Piece.source, this]

theorem source_scanBrackets {cs rest : List Char} {p : Piece}
    (h : scanBrackets cs = .piece p rest) : p.source ++ rest = '[' :: '[' :: cs := by
  rw [scanBrackets_eq] at h
  split at h
  · split at h
    · simp at h
    · simp only [Scan.piece.injEq] at h
      simp [← h.1, ← h.2, Piece.source]
  · next content after hcut =>
    have := cut?_eq_some hcut
    split at h <;> simp only [Scan.piece.injEq] at h <;> simp [← h.1, ← h.2, Piece.source, this]

/-- The first piece and the rest make up the text. -/
theorem source_scan {cs rest : List Char} {p : Piece} (h : scan cs = .piece p rest) :
    p.source ++ rest = cs := by
  unfold scan at h
  split at h
  · simp at h
  · exact source_scanBraces h
  · exact source_scanBrackets h
  · next c cs _ _ =>
    simp only [Scan.piece.injEq] at h
    rw [← h.1, ← h.2]
    simpa [Piece.source] using plainRun_append_drop cs

/-- A piece is never empty. -/
theorem source_scan_ne_nil {cs rest : List Char} {p : Piece} (h : scan cs = .piece p rest) :
    p.source ≠ [] := by
  unfold scan at h
  split at h
  · simp at h
  · next cs =>
    rw [scanBraces_eq] at h
    split at h
    · simp at h
    · split at h <;> simp only [Scan.piece.injEq] at h <;> simp [← h.1, Piece.source]
  · next cs =>
    rw [scanBrackets_eq] at h
    split at h
    · split at h
      · simp at h
      · simp only [Scan.piece.injEq] at h
        simp [← h.1, Piece.source]
    · split at h <;> simp only [Scan.piece.injEq] at h <;> simp [← h.1, Piece.source]
  · simp only [Scan.piece.injEq] at h
    simp [← h.1, Piece.source]

/-- Only an empty text has no front. -/
theorem eq_nil_of_scan {cs : List Char} (h : scan cs = .done) : cs = [] := by
  unfold scan at h
  split at h
  · rfl
  · rw [scanBraces_eq] at h
    split at h <;> (try split at h) <;> simp at h
  · rw [scanBrackets_eq] at h
    split at h <;> split at h <;> simp at h
  · simp at h

theorem scan_length {cs rest : List Char} {p : Piece} (h : scan cs = .piece p rest) :
    rest.length < cs.length := by
  have hsource := source_scan h
  have hne := List.length_pos_iff.2 (source_scan_ne_nil h)
  rw [← hsource, List.length_append]
  omega

/-- A text taken apart: its pieces in order, and the fault of the tag after them that is never
closed, if there is one. -/
structure Pieces where
  items : List Piece
  fault : Option TemplateCause
deriving DecidableEq, Repr

def pieces (cs : List Char) : Pieces :=
  match h : scan cs with
  | .done => ⟨[], none⟩
  | .fault cause => ⟨[], some cause⟩
  | .piece p rest =>
    have : rest.length < cs.length := scan_length h
    let others := pieces rest
    ⟨p :: others.items, others.fault⟩
termination_by cs.length

/-- Without a fault the pieces make up the text. -/
theorem source_pieces {cs : List Char} (h : (pieces cs).fault = none) :
    (pieces cs).items.flatMap Piece.source = cs := by
  fun_induction pieces cs with
  | case1 cs hscan => rw [eq_nil_of_scan hscan, List.flatMap_nil]
  | case2 => simp at h
  | case3 cs p rest hscan _ others ih =>
    rw [List.flatMap_cons, ih h]
    exact source_scan hscan

end SeededText
