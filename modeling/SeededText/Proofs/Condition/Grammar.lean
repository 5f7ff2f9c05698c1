import SeededText.Proofs.Condition.Items
import SeededText.Template.Tag

/-!
# What a text writes as a condition

A condition is written as its key, its operator and its operand, with blanks around the three.  A
`Layout` is these blanks, together with what keeps the parts apart: a key ends where no character of
it follows, so that a word needs a blank in front of it, and an operator ends where neither a longer
symbol nor the rest of a word follows.

The reader takes every layout apart into the parts it was made from (`Layout.readCondition_eq`), and
every text that it takes has one.  `read_condition_eq_ok_iff` says both at once.
-/

namespace SeededText

open Text

/-! ## 1. The operator -/

/-- The operator is written with characters of a key. -/
def Operator.isWord : Operator → Bool
  | .mem | .contains => true
  | .eq | .ne | .gt | .lt | .ge | .le => false

/-- The text may follow the operator. -/
def Operator.admits (rest : List Char) : Operator → Bool
  | .mem | .contains => endsWord rest
  | .gt | .lt => rest.head? != some '='
  | .eq | .ne | .ge | .le => true

section

variable {operator : Operator} {rest : List Char}

/-- What an operator admits is seen at the first character. -/
theorem Operator.admits_append (h : rest ≠ []) (more : List Char) :
    operator.admits (rest ++ more) = operator.admits rest := by
  obtain ⟨c, rest, rfl⟩ := List.exists_cons_of_ne_nil h
  cases operator <;> rfl

/-- Every operator may be followed by a blank. -/
theorem Operator.admits_blank {gap : List Char} (hgap : allBlank gap = true) (hne : gap ≠ [])
    (rest : List Char) : operator.admits (gap ++ rest) = true := by
  obtain ⟨c, gap, rfl⟩ := List.exists_cons_of_ne_nil hne
  have hc : isBlank c = true := List.all_eq_true.1 hgap c List.mem_cons_self
  have heq : c ≠ '=' := by
    rintro rfl
    cases hc
  cases operator with
  | eq | ne | ge | le => rfl
  | gt | lt => simp [admits, heq]
  | mem | contains => simp [admits, endsWord, hc]

theorem splitOperator?_append (h : operator.admits rest = true) :
    splitOperator? (operator.symbol.toList ++ rest) = some (operator, rest) := by
  cases operator with
  | eq | ne | ge | le => rfl
  | gt | lt =>
    -- the longer symbol is tried first, and fails at the first character of the rest
    cases rest with
    | nil => rfl
    | cons c rest =>
      have hc : c ≠ '=' := by simpa [Operator.admits] using h
      simp [splitOperator?, symbolOperators, Operator.symbol, stripFront?, hc.symm]
  | mem | contains =>
    have hends : endsWord rest = true := h
    simp [splitOperator?, symbolOperators, wordOperators, Operator.symbol, stripFront?, hends]

theorem symbolOperators_spelled :
    ∀ p ∈ symbolOperators, p.1 = p.2.symbol.toList ∧ p.2.isWord = false := by
  decide

theorem wordOperators_spelled :
    ∀ p ∈ wordOperators, p.1 = p.2.symbol.toList ∧ p.2.isWord = true := by
  decide

theorem splitOperator?_eq_some {cs : List Char} (h : splitOperator? cs = some (operator, rest)) :
    cs = operator.symbol.toList ++ rest ∧ operator.admits rest = true := by
  have hsplit := h
  rw [splitOperator?, Option.or_eq_some_iff] at h
  rcases h with h | ⟨-, h⟩
  · obtain ⟨⟨token, found⟩, hmem, h⟩ := List.exists_of_findSome?_eq_some h
    obtain ⟨hsymbol, hword⟩ := symbolOperators_spelled _ hmem
    simp only [Option.map_eq_some_iff, stripFront?_eq_some_iff, Prod.mk.injEq] at h hsymbol hword
    obtain ⟨_, rfl, rfl, rfl⟩ := h
    rw [hsymbol] at hsplit
    refine ⟨by rw [hsymbol], ?_⟩
    cases found with
    | eq | ne | ge | le => rfl
    | mem | contains => cases hword
    | gt | lt =>
      rename_i rest
      cases rest with
      | nil => rfl
      | cons c rest =>
        simp only [Operator.admits, List.head?_cons, bne_iff_ne, ne_eq, Option.some.injEq]
        rintro rfl
        -- the longer symbol would have been found
        cases hsplit
  · obtain ⟨⟨word, found⟩, hmem, h⟩ := List.exists_of_findSome?_eq_some h
    obtain ⟨hsymbol, hword⟩ := wordOperators_spelled _ hmem
    simp only [Option.map_eq_some_iff, Option.filter_eq_some_iff, stripFront?_eq_some_iff,
      Prod.mk.injEq] at h hsymbol hword
    obtain ⟨_, ⟨rfl, hends⟩, rfl, rfl⟩ := h
    refine ⟨by rw [hsymbol], ?_⟩
    cases found with
    | mem | contains => exact hends
    | eq | ne | ge | le | gt | lt => cases hword

/-- The reader finds an operator just where one stands that admits what follows it. -/
theorem splitOperator?_eq_some_iff {cs : List Char} :
    splitOperator? cs = some (operator, rest) ↔
      cs = operator.symbol.toList ++ rest ∧ operator.admits rest = true := by
  refine ⟨splitOperator?_eq_some, ?_⟩
  rintro ⟨rfl, hadmits⟩
  exact splitOperator?_append hadmits

end

/-! ## 2. The operand -/

/-- What a text writes as an operand of the operator. -/
inductive OperandOf : Operator → Operand → List Char → Prop where
  | quoted {operator : Operator} {text : String} {cs : List Char} (hop : operator ≠ .mem)
    (hcs : Quoted text.toList cs) : OperandOf operator (.scalar text true) cs
  | bare {operator : Operator} {text : String} (hop : operator ≠ .mem)
    (hhead : ∀ c ∈ text.toList.head?, c ≠ '[' ∧ isQuote c = false)
    (hholds : holdsOperator text.toList = false) :
    OperandOf operator (.scalar text false) text.toList
  | list {items : List String} {body : List Char} (hbody : ItemsOf items body) :
    OperandOf .mem (.list items) ('[' :: (body ++ [']']))

section

variable {operator : Operator} {operand : Operand} {cs : List Char}

/-- Only a bracket begins an operand of the operator that wants a list. -/
theorem readOperand_mem (hhead : ∀ c ∈ cs.head?, c ≠ '[') :
    readOperand .mem cs = .error .expectedList := by
  unfold readOperand
  split
  · exact absurd rfl (hhead '[' rfl)
  · rfl

theorem readOperand_quote {c : Char} (hop : operator ≠ .mem) (hquote : isQuote c = true)
    (rest : List Char) :
    readOperand operator (c :: rest) =
      match dropLast? c rest with
      | none => .error .unterminatedQuote
      | some inner =>
        if inner.contains c then .error .innerQuote
        else .ok (.scalar (String.ofList inner) true) := by
  unfold readOperand
  split
  · next heq =>
    cases heq
    cases hquote
  · rw [if_neg hop]
    cases hdrop : dropLast? c rest with
    | none => simp only [hquote, hdrop, if_true]
    | some inner => simp only [hquote, hdrop, if_true]

theorem readOperand_bare (hop : operator ≠ .mem)
    (hhead : ∀ c ∈ cs.head?, c ≠ '[' ∧ isQuote c = false) :
    readOperand operator cs =
      if holdsOperator cs then .error .secondOperator
      else .ok (.scalar (String.ofList cs) false) := by
  unfold readOperand
  split
  · exact absurd rfl (hhead '[' rfl).1
  · rw [if_neg hop]
    cases cs with
    | nil => rfl
    | cons c rest => simp only [(hhead c rfl).2, Bool.false_eq_true, if_false]

theorem operandOf_of_open {rest : List Char}
    (h : readOperand operator ('[' :: rest) = .ok operand) :
    OperandOf operator operand ('[' :: rest) := by
  rw [readOperand] at h
  split at h
  · cases h
  · next body hbody =>
    split at h
    · next hop =>
      cases hitems : readItems body with
      | error => rw [hitems] at h; cases h
      | ok items =>
        rw [hitems] at h
        cases h
        rw [hop, dropLast?_eq_some_iff.1 hbody]
        exact .list (readItems_eq_ok_iff.1 hitems)
    · cases h

theorem operandOf_of_quote {c : Char} {rest : List Char} (hop : operator ≠ .mem)
    (hquote : isQuote c = true) (h : readOperand operator (c :: rest) = .ok operand) :
    OperandOf operator operand (c :: rest) := by
  rw [readOperand_quote hop hquote] at h
  split at h
  · cases h
  · next inner hinner =>
    split at h
    · cases h
    · next hfree =>
      cases h
      rw [dropLast?_eq_some_iff.1 hinner]
      refine .quoted hop ?_
      rw [String.toList_ofList]
      exact .intro hquote (by simpa using hfree)

theorem operandOf_of_bare (hop : operator ≠ .mem)
    (hhead : ∀ c ∈ cs.head?, c ≠ '[' ∧ isQuote c = false)
    (h : readOperand operator cs = .ok operand) : OperandOf operator operand cs := by
  rw [readOperand_bare hop hhead] at h
  split at h
  · cases h
  · next hholds =>
    cases h
    rw [← String.toList_ofList (l := cs)] at hhead hholds
    have hbare := OperandOf.bare hop hhead (Bool.eq_false_iff.2 hholds)
    rw [String.toList_ofList] at hbare
    exact hbare

theorem operandOf_of_readOperand (h : readOperand operator cs = .ok operand) :
    OperandOf operator operand cs := by
  by_cases hopen : ∃ rest, cs = '[' :: rest
  · obtain ⟨rest, rfl⟩ := hopen
    exact operandOf_of_open h
  have hhead : ∀ c ∈ cs.head?, c ≠ '[' := by
    rintro c hc rfl
    exact hopen (List.head?_eq_some_iff.1 hc)
  by_cases hop : operator = .mem
  · rw [hop, readOperand_mem hhead] at h
    cases h
  by_cases hquote : ∃ c rest, cs = c :: rest ∧ isQuote c = true
  · obtain ⟨c, rest, rfl, hquote⟩ := hquote
    exact operandOf_of_quote hop hquote h
  · refine operandOf_of_bare hop (fun c hc => ⟨hhead c hc, ?_⟩) h
    rw [Bool.eq_false_iff]
    intro hc'
    obtain ⟨rest, hcs⟩ := List.head?_eq_some_iff.1 hc
    exact hquote ⟨c, rest, hcs, hc'⟩

theorem OperandOf.readOperand_eq (h : OperandOf operator operand cs) :
    readOperand operator cs = .ok operand := by
  cases h with
  | quoted hop hcs =>
    rename_i text
    cases hcs with
    | @intro quote hquote hfree =>
      have hdrop : dropLast? quote (text.toList ++ [quote]) = some text.toList :=
        dropLast?_eq_some_iff.2 rfl
      have hcontains : text.toList.contains quote = false := by simpa using hfree
      rw [readOperand_quote hop hquote, hdrop]
      simp only [hcontains, String.ofList_toList]
      rfl
  | bare hop hhead hholds =>
    rw [readOperand_bare hop hhead, hholds, String.ofList_toList]
    rfl
  | @list items body hbody =>
    have hdrop : dropLast? ']' (body ++ [']']) = some body := dropLast?_eq_some_iff.2 rfl
    rw [readOperand, hdrop]
    simp only [if_true, hbody.readItems_eq]
    rfl

/-- The reader takes as an operand what a text writes as one, and no other text. -/
theorem readOperand_eq_ok_iff :
    readOperand operator cs = .ok operand ↔ OperandOf operator operand cs :=
  ⟨operandOf_of_readOperand, OperandOf.readOperand_eq⟩

end

theorem operandOf_list_iff {items : List String} {body : List Char} :
    OperandOf .mem (.list items) ('[' :: (body ++ [']'])) ↔ ItemsOf items body := by
  refine ⟨fun h => ?_, .list⟩
  generalize hcs : '[' :: (body ++ [']']) = cs at h
  cases h with
  | list hbody =>
    rw [List.cons_inj_right] at hcs
    rwa [List.append_cancel_right hcs]

/-- A text between brackets is trimmed. -/
theorem trim_brackets (body : List Char) :
    trim ('[' :: (body ++ [']'])) = '[' :: (body ++ [']']) := by
  have hopen : isBlank '[' = false := rfl
  have hclose : trim [']'] = [']'] := rfl
  exact trim_append_trimmed hopen (List.cons_ne_nil _ _) hclose body

/-! ## 3. The blanks around the parts -/

/-- The blanks around a key, an operator and the text of an operand that are written one after the
other, such that every part ends where it is meant to. -/
structure Layout (key : List Char) (operator : Operator) (operand : List Char) where
  lead : List Char
  gap : List Char
  after : List Char
  tail : List Char
  lead_blank : allBlank lead = true
  gap_blank : allBlank gap = true
  after_blank : allBlank after = true
  tail_blank : allBlank tail = true
  key_nonempty : key ≠ []
  key_chars : ∀ c ∈ key, isKeyChar c = true
  /-- A word would go on with the key. -/
  key_ends : operator.isWord = true → gap ≠ []
  operator_ends : operator.admits (after ++ operand) = true
  operand_nonempty : operand ≠ []
  operand_trimmed : trim operand = operand

theorem isBlank_of_isKeyChar {c : Char} (h : isKeyChar c = true) : isBlank c = false := by
  have hsplit : isKeyChar c = (isNameChar c || c = '.') := rfl
  rw [hsplit, Bool.or_eq_true, decide_eq_true_eq] at h
  rcases h with h | rfl
  · exact isBlank_of_isNameChar h
  · rfl

theorem not_isKeyChar_of_isBlank {c : Char} (h : isBlank c = true) : isKeyChar c = false := by
  rw [Bool.eq_false_iff]
  intro hkey
  rw [isBlank_of_isKeyChar hkey] at h
  cases h

theorem Operator.exists_symbol (operator : Operator) :
    ∃ c cs, operator.symbol.toList = c :: cs ∧ isBlank c = false ∧
      isKeyChar c = operator.isWord := by
  cases operator <;> exact ⟨_, _, rfl, rfl, rfl⟩

namespace Layout

variable {key operand : List Char} {operator : Operator}

/-- The text without the blanks at its ends. -/
def inner (l : Layout key operator operand) : List Char :=
  key ++ (l.gap ++ (operator.symbol.toList ++ (l.after ++ operand)))

/-- The text that is laid out so. -/
def text (l : Layout key operator operand) : List Char :=
  l.lead ++ l.inner ++ l.tail

theorem trim_text (l : Layout key operator operand) : trim l.text = l.inner := by
  obtain ⟨k, ks, rfl⟩ := List.exists_cons_of_ne_nil l.key_nonempty
  have hk : isBlank k = false := isBlank_of_isKeyChar (l.key_chars k List.mem_cons_self)
  have htrim := trim_append_trimmed hk l.operand_nonempty l.operand_trimmed
    (ks ++ l.gap ++ operator.symbol.toList ++ l.after)
  rw [text, trim_between l.lead_blank l.tail_blank, inner]
  simpa only [List.cons_append, List.append_assoc] using htrim

theorem inner_nonempty (l : Layout key operator operand) : l.inner ≠ [] :=
  List.append_ne_nil_of_left_ne_nil l.key_nonempty _

/-- What follows the key does not begin with a character of a key. -/
theorem key_stops (l : Layout key operator operand) (rest : List Char) :
    ∃ c cs, l.gap ++ (operator.symbol.toList ++ rest) = c :: cs ∧ isKeyChar c = false := by
  cases hgap : l.gap with
  | cons c gap =>
    have hc : isBlank c = true :=
      List.all_eq_true.1 l.gap_blank c (hgap ▸ List.mem_cons_self)
    exact ⟨c, _, rfl, not_isKeyChar_of_isBlank hc⟩
  | nil =>
    obtain ⟨c, cs, hsymbol, -, hc⟩ := operator.exists_symbol
    refine ⟨c, cs ++ rest, by rw [hsymbol]; rfl, ?_⟩
    rw [hc, Bool.eq_false_iff]
    exact fun hword => l.key_ends hword hgap

theorem takeWhile_inner (l : Layout key operator operand) : l.inner.takeWhile isKeyChar = key := by
  obtain ⟨c, cs, hrest, hc⟩ := l.key_stops (l.after ++ operand)
  rw [inner, List.takeWhile_append_of_pos l.key_chars, hrest,
    List.takeWhile_cons_of_neg (by simp [hc]), List.append_nil]

theorem dropWhile_inner (l : Layout key operator operand) :
    l.inner.dropWhile isKeyChar = l.gap ++ (operator.symbol.toList ++ (l.after ++ operand)) := by
  obtain ⟨c, cs, hrest, hc⟩ := l.key_stops (l.after ++ operand)
  rw [inner, List.dropWhile_append_of_pos l.key_chars, hrest,
    List.dropWhile_cons_of_neg (by simp [hc])]

theorem trimStart_dropWhile_inner (l : Layout key operator operand) :
    trimStart (l.inner.dropWhile isKeyChar) = operator.symbol.toList ++ (l.after ++ operand) := by
  obtain ⟨c, cs, hsymbol, hc, -⟩ := operator.exists_symbol
  rw [l.dropWhile_inner, trimStart_append_of_allBlank l.gap_blank, hsymbol]
  exact trimStart_append_cons hc [] _

theorem trim_after (l : Layout key operator operand) : trim (l.after ++ operand) = operand := by
  have hnil : allBlank [] = true := rfl
  have htrim := trim_between l.after_blank hnil operand
  rwa [List.append_nil, l.operand_trimmed] at htrim

/-- Every layout is taken apart into the parts that it was made from. -/
theorem readCondition_eq (l : Layout key operator operand) :
    readCondition l.text =
      (readOperand operator operand).map fun operand => ⟨String.ofList key, operator, operand⟩ := by
  have hsplit := splitOperator?_eq_some_iff.2 ⟨rfl, l.operator_ends⟩
  rw [readCondition, l.trim_text]
  split
  · next hnil => exact absurd hnil l.inner_nonempty
  · simp only [l.takeWhile_inner, l.trimStart_dropWhile_inner, hsplit, l.trim_after]
    rw [if_neg (by simpa using l.key_nonempty)]
    split
    · exact absurd rfl l.operand_nonempty
    · rfl

end Layout

/-! ## 4. Reading a condition -/

section

variable {cs : List Char} {c : Condition}

/-- The steps of the reader that found a condition. -/
theorem readCondition_eq_ok (h : readCondition cs = .ok c) :
    (trim cs).takeWhile isKeyChar ≠ [] ∧
      c.identifier = String.ofList ((trim cs).takeWhile isKeyChar) ∧
      ∃ rest, splitOperator? (trimStart ((trim cs).dropWhile isKeyChar)) = some (c.operator, rest) ∧
        trim rest ≠ [] ∧ readOperand c.operator (trim rest) = .ok c.operand := by
  unfold readCondition at h
  split at h
  · cases h
  · simp only at h
    split at h
    · cases h
    · next hkey =>
      split at h
      · cases h
      · next operator rest hsplit =>
        split at h
        · cases h
        · next hne =>
          cases hread : readOperand operator (trim rest) with
          | error => rw [hread] at h; cases h
          | ok operand =>
            rw [hread] at h
            cases h
            exact ⟨by simpa using hkey, rfl, rest, hsplit, hne, hread⟩

/-- Every text that is read has a layout, and its operand was read from the text there. -/
theorem exists_layout (h : readCondition cs = .ok c) :
    ∃ (key operand : List Char) (l : Layout key c.operator operand), cs = l.text ∧
      c.identifier = String.ofList key ∧ readOperand c.operator operand = .ok c.operand := by
  obtain ⟨hkey, hidentifier, rest, hsplit, hne, hread⟩ := readCondition_eq_ok h
  obtain ⟨lead, tail, hlead, htail, hcs⟩ := exists_trim_append cs
  obtain ⟨after, last, hafter, hlast, hrest⟩ := exists_trim_append rest
  obtain ⟨hsymbol, hadmits⟩ := splitOperator?_eq_some_iff.1 hsplit
  generalize hfront : (trim cs).dropWhile isKeyChar = front at hsymbol
  have hsource : (trim cs).takeWhile isKeyChar ++ front = trim cs := by
    rw [← hfront]
    exact List.takeWhile_append_dropWhile
  have hgap : front.takeWhile isBlank ++ trimStart front = front :=
    List.takeWhile_append_dropWhile
  -- a word right behind the key would have been part of it
  have hends : c.operator.isWord = true → front.takeWhile isBlank ≠ [] := by
    intro hword hnil
    obtain ⟨d, ds, hd, -, hdkey⟩ := c.operator.exists_symbol
    rw [hnil, hsymbol, hd] at hgap
    have hstop := List.head?_dropWhile_not isKeyChar (trim cs)
    rw [hfront, ← hgap] at hstop
    simp [hdkey, hword] at hstop
  rw [hrest, Operator.admits_append (by simp [hne])] at hadmits
  let l : Layout ((trim cs).takeWhile isKeyChar) c.operator (trim rest) :=
    { lead, gap := front.takeWhile isBlank, after, tail := last ++ tail
      lead_blank := hlead
      gap_blank := List.all_takeWhile
      after_blank := hafter
      tail_blank := allBlank_append hlast htail
      key_nonempty := hkey
      key_chars := fun d hd => List.all_eq_true.1 List.all_takeWhile d hd
      key_ends := hends
      operator_ends := hadmits
      operand_nonempty := hne
      operand_trimmed := trim_trim rest }
  refine ⟨_, _, l, ?_, hidentifier, hread⟩
  calc cs = lead ++ trim cs ++ tail := hcs
    _ = lead ++ ((trim cs).takeWhile isKeyChar
          ++ (front.takeWhile isBlank ++ (c.operator.symbol.toList
          ++ (after ++ trim rest ++ last)))) ++ tail := by
        rw [← hrest, ← hsymbol, hgap, hsource]
    _ = l.text := by
        simp only [l, Layout.text, Layout.inner, List.append_assoc]

/-- What a text writes as a condition. -/
def ConditionOf (c : Condition) (cs : List Char) : Prop :=
  ∃ (key operand : List Char) (l : Layout key c.operator operand),
    cs = l.text ∧ c.identifier = String.ofList key ∧ OperandOf c.operator c.operand operand

theorem readCondition_eq_ok_iff : readCondition cs = .ok c ↔ ConditionOf c cs := by
  constructor
  · intro h
    obtain ⟨key, operand, l, hcs, hidentifier, hread⟩ := exists_layout h
    exact ⟨key, operand, l, hcs, hidentifier, readOperand_eq_ok_iff.1 hread⟩
  · rintro ⟨key, operand, l, rfl, hidentifier, hoperand⟩
    rw [l.readCondition_eq, readOperand_eq_ok_iff.2 hoperand, Except.map, ← hidentifier]

theorem Condition.read_eq_ok {source : String} :
    Condition.read source = .ok c ↔ readCondition source.toList = .ok c := by
  rw [Condition.read]
  cases readCondition source.toList with
  | error =>
    constructor
    · intro h
      cases h
    · intro h
      cases h
  | ok found =>
    show Except.ok found = Except.ok c ↔ Except.ok found = Except.ok c
    rw [Except.ok.injEq, Except.ok.injEq]

/-- The reader takes as a condition what a text writes as one, and no other text. -/
theorem read_condition_eq_ok_iff {source : String} :
    Condition.read source = .ok c ↔ ConditionOf c source.toList :=
  Condition.read_eq_ok.trans readCondition_eq_ok_iff

end

end SeededText
