import SeededText.Proofs.Condition.Grammar

/-!
# Displayed conditions

A condition is displayed with one style of quotes, and the items of a list without any.  So the
display of a condition that was read is read as the same condition for some operands only: a text
that was read from quotes may not hold a double quote, and the items of a list must be such as need
no quotes.  An item with a comma in it is displayed as two items, an empty one is not seen at all,
and one with a quote makes the list unreadable.

`read_display` says that these operands are exactly the ones that come back.
-/

namespace SeededText

open Text

/-! ## 1. Operands that need no other quotes -/

/-- The text is one that a list may hold without quotes. -/
def isBare (text : List Char) : Bool :=
  !text.isEmpty && trim text == text && !text.any isQuote && !text.contains ','

theorem isBare_iff {text : List Char} : isBare text = true ↔ Bare text := by
  simp only [isBare, Bool.and_eq_true, Bool.not_eq_true', List.isEmpty_eq_false_iff, beq_iff_eq,
    List.any_eq_false, List.contains_eq_mem, decide_eq_false_iff_not, Bool.not_eq_true]
  exact ⟨fun ⟨⟨⟨hne, htrim⟩, hquote⟩, hcomma⟩ => ⟨hne, htrim, hquote, hcomma⟩,
    fun h => ⟨⟨⟨h.nonempty, h.trimmed⟩, h.noQuote⟩, h.noComma⟩⟩

instance (text : List Char) : Decidable (Bare text) :=
  decidable_of_iff _ isBare_iff

/-- The operand is displayed in the way it is to be read. -/
def Operand.Plain : Operand → Prop
  | .scalar text true => '"' ∉ text.toList
  | .scalar _ false => True
  | .list items => ∀ item ∈ items, Bare item.toList

instance : (operand : Operand) → Decidable operand.Plain
  | .scalar text true => inferInstanceAs (Decidable ('"' ∉ text.toList))
  | .scalar _ false => inferInstanceAs (Decidable True)
  | .list items => inferInstanceAs (Decidable (∀ item ∈ items, Bare item.toList))

/-! ## 2. Lists without quotes -/

theorem SegmentOf.blank_append {found : Option String} {lead segment : List Char}
    (hlead : allBlank lead = true) (h : SegmentOf found segment) :
    SegmentOf found (lead ++ segment) := by
  cases h with
  | blank hgap => exact .blank (allBlank_append hlead hgap)
  | quoted hfirst htail hcs =>
    rw [← List.append_assoc, ← List.append_assoc]
    exact .quoted (allBlank_append hlead hfirst) htail hcs
  | bare hfirst htail hbare =>
    rw [← List.append_assoc, ← List.append_assoc]
    exact .bare (allBlank_append hlead hfirst) htail hbare

section

variable {items : List String} {body : List Char}

theorem ItemsOf.blank_append {lead : List Char} (hlead : allBlank lead = true)
    (h : ItemsOf items body) : ItemsOf items (lead ++ body) := by
  cases h with
  | last hsegment => exact .last (hsegment.blank_append hlead)
  | more hsegment hrest =>
    rw [← List.append_assoc]
    exact .more (hsegment.blank_append hlead) hrest

theorem segmentOf_of_bare {text : String} (h : Bare text.toList) :
    SegmentOf (some text) text.toList := by
  have hnil : allBlank [] = true := rfl
  have hsegment := SegmentOf.bare hnil hnil h
  rwa [List.nil_append, List.append_nil] at hsegment

/-- Texts that need no quotes are listed by the body that joins them. -/
theorem itemsOf_joined (h : ∀ item ∈ items, Bare item.toList) :
    ItemsOf items (", ".intercalate items).toList := by
  induction items with
  | nil =>
    have hnil : allBlank [] = true := rfl
    exact .last (.blank hnil)
  | cons item items ih =>
    have hitem := segmentOf_of_bare (h item List.mem_cons_self)
    cases items with
    | nil =>
      rw [String.intercalate_singleton]
      exact .last hitem
    | cons next items =>
      have hspace : allBlank [' '] = true := rfl
      have hrest := ih fun other hother => h other (List.mem_cons_of_mem item hother)
      have hlisted := ItemsOf.more hitem (hrest.blank_append hspace)
      rw [String.intercalate_cons_cons]
      simpa using hlisted

/-! ## 3. Counting quotes -/

/-- The number of quotes in a text. -/
def quotes (cs : List Char) : Nat :=
  cs.countP isQuote

/-- The number of quotes in some texts. -/
def quotesIn (items : List String) : Nat :=
  quotes (items.flatMap String.toList)

theorem quotes_append (cs more : List Char) : quotes (cs ++ more) = quotes cs + quotes more :=
  List.countP_append

theorem quotesIn_append (items more : List String) :
    quotesIn (items ++ more) = quotesIn items + quotesIn more := by
  rw [quotesIn, List.flatMap_append, quotes_append, quotesIn, quotesIn]

theorem quotesIn_cons (item : String) (items : List String) :
    quotesIn (item :: items) = quotes item.toList + quotesIn items := by
  rw [quotesIn, List.flatMap_cons, quotes_append, quotesIn]

theorem quotesIn_some (text : String) : quotesIn (some text).toList = quotes text.toList := by
  simp [quotesIn]

theorem Quoted.quotes_eq {text cs : List Char} (h : Quoted text cs) :
    quotes cs = quotes text + 2 := by
  cases h with
  | intro hquote => simp [quotes, hquote]

/-- A segment holds the quotes of its text, and more if the text is in quotes. -/
theorem SegmentOf.quotes_le {found : Option String} {segment : List Char}
    (h : SegmentOf found segment) :
    quotesIn found.toList ≤ quotes segment ∧
      (quotesIn found.toList = quotes segment → ∀ text ∈ found.toList, Bare text.toList) := by
  cases h with
  | blank => exact ⟨Nat.zero_le _, fun _ text htext => nomatch htext⟩
  | quoted _ _ hcs =>
    rw [quotesIn_some, quotes_append, quotes_append, hcs.quotes_eq]
    exact ⟨by omega, fun h => by omega⟩
  | bare _ _ hbare =>
    rw [quotesIn_some, quotes_append, quotes_append]
    refine ⟨by omega, ?_⟩
    intro _ text htext
    rw [List.mem_singleton.1 htext]
    exact hbare

/-- A body holds the quotes of its items, and more if one of them is in quotes. -/
theorem ItemsOf.quotes_le (h : ItemsOf items body) :
    quotesIn items ≤ quotes body ∧
      (quotesIn items = quotes body → ∀ item ∈ items, Bare item.toList) := by
  induction h with
  | last hsegment => exact hsegment.quotes_le
  | @more found segment items rest hsegment _ ih =>
    have hcomma : quotes (',' :: rest) = quotes rest := by simp [quotes, isQuote]
    have hle := hsegment.quotes_le
    rw [quotesIn_append, quotes_append, hcomma]
    refine ⟨by omega, ?_⟩
    intro hsum item hitem
    rcases List.mem_append.1 hitem with hitem | hitem
    · exact hle.2 (by omega) item hitem
    · exact ih.2 (by omega) item hitem

theorem quotes_joined (items : List String) :
    quotes (", ".intercalate items).toList = quotesIn items := by
  induction items with
  | nil => rfl
  | cons item items ih =>
    rw [quotesIn_cons, ← ih]
    cases items with
    | nil => rw [String.intercalate_singleton]; rfl
    | cons next items =>
      rw [String.intercalate_cons_cons, String.toList_append, String.toList_append, quotes_append,
        quotes_append]
      rfl

/-- The body that joins some texts lists these very texts just when none of them needs quotes. -/
theorem itemsOf_joined_iff :
    ItemsOf items (", ".intercalate items).toList ↔ ∀ item ∈ items, Bare item.toList :=
  ⟨fun h => h.quotes_le.2 (quotes_joined items).symm, itemsOf_joined⟩

end

/-! ## 4. Reading what is displayed -/

section

variable {operator : Operator} {operand : Operand} {cs : List Char}

theorem Operand.toList_display_quoted (text : String) :
    (Operand.scalar text true).display.toList = '"' :: (text.toList ++ ['"']) := by
  simp [Operand.display]

theorem Operand.toList_display_list (items : List String) :
    (Operand.list items).display.toList = '[' :: ((", ".intercalate items).toList ++ [']']) := by
  simp [Operand.display]

/-- The display of an operand stands by itself, as the text did from which the operand was read. -/
theorem OperandOf.display_trimmed (h : OperandOf operator operand cs) (hne : cs ≠ [])
    (htrim : trim cs = cs) :
    operand.display.toList ≠ [] ∧ trim operand.display.toList = operand.display.toList := by
  cases h with
  | quoted =>
    rw [Operand.toList_display_quoted]
    have hquote : isBlank '"' = false := rfl
    have hlast : trim ['"'] = ['"'] := rfl
    exact ⟨List.cons_ne_nil _ _, trim_append_trimmed hquote (List.cons_ne_nil _ _) hlast _⟩
  | bare => exact ⟨hne, htrim⟩
  | list =>
    rw [Operand.toList_display_list]
    exact ⟨List.cons_ne_nil _ _, trim_brackets _⟩

theorem OperandOf.display_iff (h : OperandOf operator operand cs) :
    OperandOf operator operand operand.display.toList ↔ operand.Plain := by
  cases h with
  | @quoted operator text cs hop =>
    rw [Operand.toList_display_quoted]
    constructor
    · intro hdisplay
      cases hdisplay with
      | quoted _ hcs => cases hcs with | intro _ hfree => exact hfree
    · intro hplain
      exact .quoted hop (.intro rfl hplain)
  | bare hop hhead hholds => exact ⟨fun _ => trivial, fun _ => .bare hop hhead hholds⟩
  | list => rw [Operand.toList_display_list, operandOf_list_iff, itemsOf_joined_iff]; rfl

end

section

variable {source : String} {c : Condition}

/-- The display has one blank on both sides of the operator, so that all depends on the operand. -/
theorem ConditionOf.read_display_iff {cs : List Char} (h : ConditionOf c cs) :
    Condition.read c.display = .ok c ↔
      OperandOf c.operator c.operand c.operand.display.toList := by
  obtain ⟨key, operand, l, -, hidentifier, hoperand⟩ := h
  obtain ⟨hne, htrim⟩ := hoperand.display_trimmed l.operand_nonempty l.operand_trimmed
  have hspace : allBlank [' '] = true := rfl
  have hspace_ne : [' '] ≠ [] := List.cons_ne_nil _ _
  let shown : Layout key c.operator c.operand.display.toList :=
    { lead := [], gap := [' '], after := [' '], tail := []
      lead_blank := rfl
      gap_blank := hspace
      after_blank := hspace
      tail_blank := rfl
      key_nonempty := l.key_nonempty
      key_chars := l.key_chars
      key_ends := fun _ => hspace_ne
      operator_ends := Operator.admits_blank hspace hspace_ne _
      operand_nonempty := hne
      operand_trimmed := htrim }
  have hshown : c.display.toList = shown.text := by
    simp [Condition.display, hidentifier, shown, Layout.text, Layout.inner]
  rw [Condition.read_eq_ok, hshown, shown.readCondition_eq, ← readOperand_eq_ok_iff]
  cases readOperand c.operator c.operand.display.toList with
  | error =>
    constructor
    · intro hread
      cases hread
    · intro hread
      cases hread
  | ok operand =>
    rw [Except.map, Except.ok.injEq, Except.ok.injEq]
    constructor
    · intro hread
      exact congrArg Condition.operand hread
    · intro hread
      rw [hread, ← hidentifier]

/-- The display of a condition that was read is read as that condition just when the operand is
displayed in the way it is to be read. -/
theorem read_display (h : Condition.read source = .ok c) :
    Condition.read c.display = .ok c ↔ c.operand.Plain := by
  have hwrites := read_condition_eq_ok_iff.1 h
  rw [hwrites.read_display_iff]
  obtain ⟨_, _, _, -, -, hoperand⟩ := hwrites
  exact hoperand.display_iff

end

/-- Items in quotes come back when they need none. -/
theorem read_display_needless :
    ∃ c, Condition.read "mood in ['calm', \"half asleep\"]" = .ok c ∧
      Condition.read c.display = .ok c := by
  refine ⟨⟨"mood", .mem, .list ["calm", "half asleep"]⟩, ?hread, (read_display ?hread).2 ?_⟩
  · rfl
  · decide

/-- An item with a comma is displayed as two items. -/
theorem not_read_display_comma :
    ¬ ∀ source c, Condition.read source = .ok c → Condition.read c.display = .ok c := by
  intro hall
  have hread : Condition.read "mood in [\"a, b\", c]" =
      .ok ⟨"mood", .mem, .list ["a, b", "c"]⟩ := rfl
  have hdisplay : Condition.read "mood in [a, b, c]" =
      .ok ⟨"mood", .mem, .list ["a", "b", "c"]⟩ := rfl
  have hback := hall _ _ hread
  have hshown : (⟨"mood", .mem, .list ["a, b", "c"]⟩ : Condition).display
      = "mood in [a, b, c]" := by
    decide
  rw [hshown, hdisplay] at hback
  simp at hback

end SeededText
