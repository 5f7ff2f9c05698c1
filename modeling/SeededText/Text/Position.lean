/-!
# Positions in a text

A position is a line and a column, both counted from one; a line feed ends a line and a column is
one character wide, whatever the character.

`after` goes through the text before a place character by character.  `after_eq` says what it counts,
and `eq_nil_of_after_append` that two places in a text never have the same position.
-/

namespace SeededText.Text

/-- A place in a text as a person counts it. -/
structure Position where
  line : Nat
  column : Nat
deriving DecidableEq, Repr

namespace Position

def start : Position := ⟨1, 1⟩

def next (p : Position) (c : Char) : Position :=
  if c = '\n' then ⟨p.line + 1, 1⟩ else ⟨p.line, p.column + 1⟩

/-- The place after the characters `cs` from the beginning. -/
def after (cs : List Char) : Position :=
  cs.foldl next start

/-- The place of the character at `offset` in a text. -/
def ofOffset (text : List Char) (offset : Nat) : Position :=
  after (text.take offset)

/-- The line counts the line feeds before the place, the column the characters since the last one. -/
theorem after_eq (cs : List Char) :
    after cs = ⟨cs.count '\n' + 1, (cs.reverse.takeWhile (· != '\n')).length + 1⟩ := by
  -- the column looks back from the place, so the induction takes the last character off
  have hback : ∀ back : List Char, after back.reverse
      = ⟨back.count '\n' + 1, (back.takeWhile (· != '\n')).length + 1⟩ := by
    intro back
    induction back with
    | nil => rfl
    | cons c back ih =>
      rw [List.reverse_cons, after, List.foldl_append, ← after, ih, List.foldl_cons, List.foldl_nil,
        next]
      by_cases hc : c = '\n'
      · simp [hc]
      · simp [hc]
  simpa using hback cs.reverse

/-- Whoever goes on in a text comes to a later line, or further on the same. -/
theorem lt_foldl_next (p : Position) (c : Char) (cs : List Char) :
    let q := (c :: cs).foldl next p
    p.line < q.line ∨ p.line = q.line ∧ p.column < q.column := by
  induction cs generalizing p c with
  | nil =>
    by_cases hc : c = '\n'
    · simp [next, hc]
    · simp [next, hc]
  | cons d cs ih =>
    have hnext := ih (p.next c) d
    rw [List.foldl_cons]
    dsimp only at hnext ⊢
    by_cases hc : c = '\n'
    · simp only [next, hc, if_true] at hnext ⊢
      omega
    · simp only [next, hc, if_false] at hnext ⊢
      omega

/-- Two places in a text have different positions. -/
theorem eq_nil_of_after_append {before more : List Char} (h : after (before ++ more) = after before) :
    more = [] := by
  cases more with
  | nil => rfl
  | cons c more =>
    have hlt := lt_foldl_next (after before) c more
    rw [after, List.foldl_append, ← after] at h
    rw [h] at hlt
    dsimp only at hlt
    omega

end Position

end SeededText.Text
