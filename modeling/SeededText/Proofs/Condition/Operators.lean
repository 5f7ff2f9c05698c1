import Mathlib.Control.Monad.Basic
import SeededText.Proofs.Condition.Display
import SeededText.Proofs.Text.Search
import SeededText.Proofs.Text.Words

/-!
# Operators inside literals

A literal that holds an operator is meant to stand in quotes.  Three places of the reader decide what
that comes to.  Where it looks for the operator of a condition, it takes a word for one if a blank, an
opening bracket or a quote follows.  Where it looks for a further one in a literal without quotes, it
takes a word for one only if blanks or the ends of the text are on both sides.  And in the items of a
list it does not look.

So there are literals without quotes that hold a further operator in the sense of the first place:
those where a bracket or a quote follows the word at once (`Glued`), and items of any kind.
-/

namespace SeededText

open Text

/-! ## 1. Further operators -/

/-- The word stands in the text at its start or behind a blank, and in front of `after`. -/
def WordBefore (word cs after : List Char) : Prop :=
  ∃ before, cs = before ++ (word ++ after) ∧ ∀ c ∈ before.getLast?, isBlank c = true

/-- The text holds an operator: a symbol anywhere, or a word at its start or behind a blank, and at its
end or in front of what may follow a word. -/
def HoldsFurther (cs : List Char) : Prop :=
  (∃ p ∈ symbolOperators, p.1 <:+: cs) ∨
    ∃ p ∈ wordOperators, ∃ after, WordBefore p.1 cs after ∧ (after = [] ∨ endsWord after = true)

/-- A bracket or a quote follows an operator that is a word. -/
def Glued (cs : List Char) : Prop :=
  ∃ p ∈ wordOperators, ∃ c after, WordBefore p.1 cs (c :: after) ∧ (c = '[' ∨ isQuote c = true)

section

variable {cs word after : List Char}

theorem endsWord_cons {c : Char} :
    endsWord (c :: after) = true ↔ isBlank c = true ∨ c = '[' ∨ isQuote c = true := by
  simp [endsWord, isQuote, or_assoc]

theorem wordOperators_words :
    ∀ p ∈ wordOperators, p.1 ≠ [] ∧ p.1.all (fun c => !isBlank c) = true := by
  decide

theorem holds_iff_infix {pattern : List Char} : holds pattern cs = true ↔ pattern <:+: cs := by
  rw [holds_eq_isSome_cut?, ← Option.ne_none_iff_isSome, ne_eq, cut?_eq_none_iff, Classical.not_not]

/-- An operator that is a word is one of the text's words where blanks or the ends of the text are on
both sides. -/
theorem mem_words_iff_wordBefore {p : List Char × Operator} (hp : p ∈ wordOperators) :
    p.1 ∈ words cs ↔ ∃ after, WordBefore p.1 cs after ∧ ∀ c ∈ after.head?, isBlank c = true := by
  obtain ⟨hne, hall⟩ := wordOperators_words p hp
  have hfree : ∀ c ∈ p.1, isBlank c = false := by simpa using hall
  rw [mem_words]
  constructor
  · rintro ⟨-, -, before, after, hcs, hbefore, hafter⟩
    exact ⟨after, ⟨before, hcs, hbefore⟩, hafter⟩
  · rintro ⟨after, ⟨before, hcs, hbefore⟩, hafter⟩
    exact ⟨hne, hfree, before, after, hcs, hbefore, hafter⟩

/-- The check of literals finds a symbol anywhere, and a word between blanks. -/
theorem holdsOperator_iff :
    holdsOperator cs = true ↔ (∃ p ∈ symbolOperators, p.1 <:+: cs) ∨
      ∃ p ∈ wordOperators, ∃ after, WordBefore p.1 cs after ∧ ∀ c ∈ after.head?, isBlank c = true := by
  rw [holdsOperator, Bool.or_eq_true, List.any_eq_true, List.any_eq_true]
  refine or_congr (exists_congr fun p => and_congr_right fun _ => holds_iff_infix) ?_
  simp only [List.any_eq_true, decide_eq_true_eq]
  constructor
  · rintro ⟨word, hword, p, hp, rfl⟩
    exact ⟨p, hp, (mem_words_iff_wordBefore hp).1 hword⟩
  · rintro ⟨p, hp, hword⟩
    exact ⟨p.1, (mem_words_iff_wordBefore hp).2 hword, p, hp, rfl⟩

/-- A further operator is one that the check finds, or a word with a bracket or a quote behind it. -/
theorem holdsFurther_iff : HoldsFurther cs ↔ holdsOperator cs = true ∨ Glued cs := by
  rw [holdsOperator_iff, or_assoc]
  refine or_congr Iff.rfl ⟨?_, ?_⟩
  · rintro ⟨p, hp, after, hword, hafter⟩
    cases after with
    | nil => exact .inl ⟨p, hp, [], hword, by simp⟩
    | cons c after =>
      have hends : endsWord (c :: after) = true := hafter.resolve_left (List.cons_ne_nil _ _)
      rcases endsWord_cons.1 hends with hblank | hglued
      · exact .inl ⟨p, hp, c :: after, hword, by simp [hblank]⟩
      · exact .inr ⟨p, hp, c, after, hword, hglued⟩
  · rintro (⟨p, hp, after, hword, hafter⟩ | ⟨p, hp, c, after, hword, hglued⟩)
    · refine ⟨p, hp, after, hword, ?_⟩
      cases after with
      | nil => exact .inl rfl
      | cons c after => exact .inr (endsWord_cons.2 (.inl (hafter c rfl)))
    · exact ⟨p, hp, c :: after, hword, .inr (endsWord_cons.2 (.inr hglued))⟩

end

/-! ## 2. Literals without quotes -/

/-- The text may be written as an operand without quotes, as far as its ends are concerned. -/
structure Standing (text : List Char) : Prop where
  nonempty : text ≠ []
  trimmed : trim text = text
  head : ∀ c ∈ text.head?, c ≠ '[' ∧ isQuote c = false

/-- The text is the operand, without quotes, of the condition that the source is read as. -/
def UnquotedScalar (source text : String) : Prop :=
  ∃ c, Condition.read source = .ok c ∧ c.operand = .scalar text false

/-- The text is what a segment of the body lists, and it has no quotes there. -/
inductive ListsBare (text : List Char) : List Char → Prop where
  | last {lead tail : List Char} (hlead : allBlank lead = true) (htail : allBlank tail = true)
    (hbare : Bare text) : ListsBare text (lead ++ text ++ tail)
  | here {lead tail : List Char} {items : List String} {rest : List Char}
    (hlead : allBlank lead = true) (htail : allBlank tail = true) (hbare : Bare text)
    (hrest : ItemsOf items rest) : ListsBare text (lead ++ text ++ tail ++ ',' :: rest)
  | later {found : Option String} {segment rest : List Char} (hsegment : SegmentOf found segment)
    (hrest : ListsBare text rest) : ListsBare text (segment ++ ',' :: rest)

/-- The text is an item without quotes in the list of the condition that the source is read as. -/
def UnquotedItem (source text : String) : Prop :=
  ∃ (c : Condition) (key body : List Char) (l : Layout key .mem ('[' :: (body ++ [']']))),
    Condition.read source = .ok c ∧ source.toList = l.text ∧ ListsBare text.toList body

section

variable {text : String} {cs body : List Char} {operator : Operator}

theorem ListsBare.bare (h : ListsBare cs body) : Bare cs := by
  induction h with
  | last _ _ hbare => exact hbare
  | here _ _ hbare => exact hbare
  | later _ _ ih => exact ih

/-- An operand behind a key of one character, with one blank on each side of the operator. -/
def Layout.spaced (operator : Operator) (hne : cs ≠ []) (htrim : trim cs = cs) :
    Layout ['a'] operator cs where
  lead := []
  gap := [' ']
  after := [' ']
  tail := []
  lead_blank := rfl
  gap_blank := rfl
  after_blank := rfl
  tail_blank := rfl
  key_nonempty := List.cons_ne_nil _ _
  key_chars _ hc := by rw [List.mem_singleton.1 hc]; rfl
  key_ends _ := List.cons_ne_nil _ _
  operator_ends := Operator.admits_blank rfl (List.cons_ne_nil _ _) cs
  operand_nonempty := hne
  operand_trimmed := htrim

/-- What a layout writes is read if its operand is. -/
theorem Layout.read_eq_ok {key : List Char} {operand : Operand} (l : Layout key operator cs)
    (hoperand : OperandOf operator operand cs) :
    Condition.read (String.ofList l.text) = .ok ⟨String.ofList key, operator, operand⟩ :=
  read_condition_eq_ok_iff.2 ⟨key, cs, l, String.toList_ofList, rfl, hoperand⟩

/-- The unquoted operands are the texts without brackets, quotes and blanks at their ends in which the
check finds no operator. -/
theorem exists_unquotedScalar_iff : (∃ source, UnquotedScalar source text) ↔
    Standing text.toList ∧ holdsOperator text.toList = false := by
  constructor
  · rintro ⟨source, ⟨identifier, operator, operand⟩, hread, rfl⟩
    obtain ⟨key, cs, l, -, -, hoperand⟩ := read_condition_eq_ok_iff.1 hread
    cases hoperand with
    | bare _ hhead hholds => exact ⟨⟨l.operand_nonempty, l.operand_trimmed, hhead⟩, hholds⟩
  · rintro ⟨hstanding, hholds⟩
    have hoperand : OperandOf .eq (.scalar text false) text.toList :=
      .bare (by decide) hstanding.head hholds
    exact ⟨_, _, (Layout.spaced .eq hstanding.nonempty hstanding.trimmed).read_eq_ok hoperand, rfl⟩

/-- The unquoted items are all texts that a list may hold without quotes. -/
theorem exists_unquotedItem_iff : (∃ source, UnquotedItem source text) ↔ Bare text.toList := by
  constructor
  · rintro ⟨source, c, key, body, l, -, -, hlists⟩
    exact hlists.bare
  · intro hbare
    have hlast : ItemsOf [text] ([] ++ text.toList ++ []) := .last (.bare rfl rfl hbare)
    let l := Layout.spaced .mem (List.cons_ne_nil _ _) (trim_brackets ([] ++ text.toList ++ []))
    exact ⟨_, _, _, _, l, l.read_eq_ok (.list hlast), String.toList_ofList, .last rfl rfl hbare⟩

end

/-- Of every text: no accepted condition has it as an unquoted operand with a further operator in it,
unless the text only holds operators that are words with a bracket or a quote behind them; and none
has it as an unquoted item with a further operator in it, unless the text may be an item at all.  In an
unquoted operand there is no symbol, and something that is not blank follows every word. -/
theorem one_operator_iff (text : String) :
    ((∀ source, UnquotedScalar source text → ¬ HoldsFurther text.toList) ↔
      ¬ (Standing text.toList ∧ holdsOperator text.toList = false ∧ Glued text.toList)) ∧
    ((∀ source, UnquotedItem source text → ¬ HoldsFurther text.toList) ↔
      ¬ (Bare text.toList ∧ HoldsFurther text.toList)) ∧
    ∀ source, UnquotedScalar source text →
      (∀ p ∈ symbolOperators, ¬ p.1 <:+: text.toList) ∧
      ∀ p ∈ wordOperators, ∀ after, WordBefore p.1 text.toList after →
        ∃ c rest, after = c :: rest ∧ isBlank c = false := by
  refine ⟨⟨?_, ?_⟩, ⟨?_, ?_⟩, ?_⟩
  · rintro hnone ⟨hstanding, hholds, hglued⟩
    obtain ⟨source, hscalar⟩ := exists_unquotedScalar_iff.2 ⟨hstanding, hholds⟩
    exact hnone source hscalar (holdsFurther_iff.2 (.inr hglued))
  · intro hnot source hscalar hfurther
    obtain ⟨hstanding, hholds⟩ := exists_unquotedScalar_iff.1 ⟨source, hscalar⟩
    rcases holdsFurther_iff.1 hfurther with hholds' | hglued
    · rw [hholds] at hholds'
      cases hholds'
    · exact hnot ⟨hstanding, hholds, hglued⟩
  · rintro hnone ⟨hbare, hfurther⟩
    obtain ⟨source, hitem⟩ := exists_unquotedItem_iff.2 hbare
    exact hnone source hitem hfurther
  · exact fun hnot source hitem hfurther =>
      hnot ⟨exists_unquotedItem_iff.1 ⟨source, hitem⟩, hfurther⟩
  · intro source hscalar
    obtain ⟨-, hholds⟩ := exists_unquotedScalar_iff.1 ⟨source, hscalar⟩
    have hfound := mt holdsOperator_iff.2 (Bool.eq_false_iff.1 hholds)
    refine ⟨fun p hp hinfix => hfound (.inl ⟨p, hp, hinfix⟩), fun p hp after hword => ?_⟩
    cases after with
    | nil => exact absurd (.inr ⟨p, hp, [], hword, by simp⟩) hfound
    | cons c rest =>
      refine ⟨c, rest, rfl, Bool.eq_false_iff.2 fun hblank => ?_⟩
      exact hfound (.inr ⟨p, hp, c :: rest, hword, by simp [hblank]⟩)

/-- A word with a bracket behind it in an operand, and a symbol in an item of a list: neither is in
quotes, and both conditions are read. -/
theorem not_one_operator :
    (UnquotedScalar "a == b in[c]" "b in[c]" ∧ HoldsFurther "b in[c]".toList) ∧
    (UnquotedItem "a in [b == c, d]" "b == c" ∧ HoldsFurther "b == c".toList) := by
  have hscalar : Condition.read "a == b in[c]" = .ok ⟨"a", .eq, .scalar "b in[c]" false⟩ := by
    decide +kernel
  have hlist : Condition.read "a in [b == c, d]" = .ok ⟨"a", .mem, .list ["b == c", "d"]⟩ := by
    decide +kernel
  have hrest : ItemsOf ["d"] ([' '] ++ "d".toList ++ []) :=
    .last (.bare rfl rfl (by decide : Bare "d".toList))
  have hitem : ListsBare "b == c".toList ([] ++ "b == c".toList ++ [] ++ ',' :: [' ', 'd']) :=
    .here rfl rfl (by decide) hrest
  refine ⟨⟨⟨_, hscalar, rfl⟩, ?_⟩, ⟨_, _, _, Layout.spaced .mem (List.cons_ne_nil _ _)
    (trim_brackets _), hlist, rfl, hitem⟩, ?_⟩
  · have hblank : ∀ c ∈ ['b', ' '].getLast?, isBlank c = true := by
      rintro c ⟨⟩
      rfl
    exact .inr ⟨(['i', 'n'], .mem), by decide, ['[', 'c', ']'], ⟨['b', ' '], rfl, hblank⟩, .inr rfl⟩
  · exact .inl ⟨(['=', '='], .eq), by decide, ['b', ' '], [' ', 'c'], rfl⟩

end SeededText
