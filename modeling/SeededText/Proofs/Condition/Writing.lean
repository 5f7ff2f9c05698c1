import SeededText.Proofs.Condition.Grammar

/-!
# Writing conditions

Whoever writes a condition down has one safe way to do it: every text of the operand in quotes of a
kind that it does not hold, blanks on both sides of the operator, and as many blanks as wanted
around the whole and around the items of a list.  Every condition can be written so unless one of
its texts holds both kinds of quotes, and `read_written` says that the reader gives the condition
back, whatever else the texts hold.
-/

namespace SeededText

open Text

/-! ## 1. Texts in quotes -/

/-- One kind of quotes is free to put the text in. -/
def Quotable (text : String) : Prop :=
  '"' ∈ text.toList → '\'' ∉ text.toList

theorem Quotable.exists_quoted {text : String} (h : Quotable text) :
    ∃ cs, Quoted text.toList cs := by
  have hisDouble : isQuote '"' = true := rfl
  have hisSingle : isQuote '\'' = true := rfl
  by_cases hdouble : '"' ∈ text.toList
  · exact ⟨_, .intro hisSingle (h hdouble)⟩
  · exact ⟨_, .intro hisDouble hdouble⟩

/-- A list body in which every text is in quotes, with blanks around it, and commas between. -/
inductive QuotedItems : List String → List Char → Prop where
  | none {gap : List Char} (hgap : allBlank gap = true) : QuotedItems [] gap
  | last {text : String} {lead cs tail : List Char} (hlead : allBlank lead = true)
    (htail : allBlank tail = true) (hcs : Quoted text.toList cs) :
    QuotedItems [text] (lead ++ cs ++ tail)
  | more {text next : String} {items : List String} {lead cs tail rest : List Char}
    (hlead : allBlank lead = true) (htail : allBlank tail = true) (hcs : Quoted text.toList cs)
    (hrest : QuotedItems (next :: items) rest) :
    QuotedItems (text :: next :: items) (lead ++ cs ++ tail ++ ',' :: rest)

theorem QuotedItems.itemsOf {items : List String} {body : List Char} (h : QuotedItems items body) :
    ItemsOf items body := by
  induction h with
  | none hgap => exact .last (.blank hgap)
  | last hlead htail hcs => exact .last (.quoted hlead htail hcs)
  | more hlead htail hcs _ ih => exact .more (.quoted hlead htail hcs) ih

theorem exists_quotedItems {items : List String} (h : ∀ item ∈ items, Quotable item) :
    ∃ body, QuotedItems items body := by
  induction items with
  | nil => exact ⟨[], .none rfl⟩
  | cons item items ih =>
    obtain ⟨cs, hcs⟩ := (h item List.mem_cons_self).exists_quoted
    obtain ⟨body, hbody⟩ := ih fun other hother => h other (List.mem_cons_of_mem item hother)
    have hnil : allBlank [] = true := rfl
    cases items with
    | nil => exact ⟨_, .last hnil hnil hcs⟩
    | cons next items => exact ⟨_, .more hnil hnil hcs hbody⟩

/-! ## 2. Operands in quotes -/

/-- The operand with every text in quotes. -/
inductive Operand.WrittenAs : Operand → List Char → Prop where
  | scalar {text : String} {cs : List Char} (hcs : Quoted text.toList cs) :
    Operand.WrittenAs (.scalar text true) cs
  | list {items : List String} {body : List Char} (hbody : QuotedItems items body) :
    Operand.WrittenAs (.list items) ('[' :: (body ++ [']']))

/-- The operator takes the operand, and its texts can be put in quotes. -/
inductive Operand.Quotable : Operator → Operand → Prop where
  | scalar {operator : Operator} {text : String} (hop : operator ≠ .mem)
    (htext : SeededText.Quotable text) : Operand.Quotable operator (.scalar text true)
  | list {items : List String} (hitems : ∀ item ∈ items, SeededText.Quotable item) :
    Operand.Quotable .mem (.list items)

section

variable {operator : Operator} {operand : Operand} {cs : List Char}

theorem Operand.WrittenAs.trim_eq (h : operand.WrittenAs cs) : trim cs = cs := by
  cases h with
  | scalar hcs => exact hcs.trim_eq
  | list => exact trim_brackets _

theorem Operand.WrittenAs.nonempty (h : operand.WrittenAs cs) : cs ≠ [] := by
  cases h with
  | scalar hcs => cases hcs; exact List.cons_ne_nil _ _
  | list => exact List.cons_ne_nil _ _

theorem Operand.Quotable.exists_written (h : operand.Quotable operator) :
    ∃ cs, operand.WrittenAs cs := by
  cases h with
  | scalar _ htext =>
    obtain ⟨cs, hcs⟩ := htext.exists_quoted
    exact ⟨cs, .scalar hcs⟩
  | list hitems =>
    obtain ⟨body, hbody⟩ := exists_quotedItems hitems
    exact ⟨_, .list hbody⟩

theorem Operand.WrittenAs.operandOf (hquotable : Operand.Quotable operator operand)
    (h : operand.WrittenAs cs) : OperandOf operator operand cs := by
  cases h with
  | scalar hcs =>
    cases hquotable with
    | scalar hop => exact .quoted hop hcs
  | list hbody =>
    cases hquotable with
    | list => exact .list hbody.itemsOf

end

/-! ## 3. Conditions in quotes -/

/-- A key of the right characters, and an operand that can be put in quotes. -/
structure Condition.Quotable (c : Condition) : Prop where
  identifier_nonempty : c.identifier ≠ ""
  identifier_chars : ∀ d ∈ c.identifier.toList, isKeyChar d = true
  operand : Operand.Quotable c.operator c.operand

/-- The condition written down: blanks around the operator, any blanks around the whole, and the
operand in quotes. -/
inductive Condition.WrittenAs (c : Condition) : List Char → Prop where
  | intro {lead gap after operand tail : List Char} (hlead : allBlank lead = true)
    (hgap : allBlank gap = true) (hgap_nonempty : gap ≠ []) (hafter : allBlank after = true)
    (hafter_nonempty : after ≠ []) (htail : allBlank tail = true)
    (hoperand : c.operand.WrittenAs operand) :
    c.WrittenAs (lead ++ (c.identifier.toList ++ (gap ++ (c.operator.symbol.toList
      ++ (after ++ operand)))) ++ tail)

section

variable {c : Condition}

theorem Condition.Quotable.exists_written (hc : c.Quotable) : ∃ cs, c.WrittenAs cs := by
  obtain ⟨operand, hoperand⟩ := hc.operand.exists_written
  have hspace : allBlank [' '] = true := rfl
  have hnil : allBlank [] = true := rfl
  exact ⟨_, .intro hnil hspace (List.cons_ne_nil _ _) hspace (List.cons_ne_nil _ _) hnil hoperand⟩

theorem Condition.WrittenAs.conditionOf {cs : List Char} (hc : c.Quotable) (h : c.WrittenAs cs) :
    ConditionOf c cs := by
  cases h with
  | @intro lead gap after operand tail hlead hgap hgap_ne hafter hafter_ne htail hoperand =>
    let l : Layout c.identifier.toList c.operator operand :=
      { lead, gap, after, tail
        lead_blank := hlead
        gap_blank := hgap
        after_blank := hafter
        tail_blank := htail
        key_nonempty := fun hnil => hc.identifier_nonempty (String.toList_eq_nil_iff.1 hnil)
        key_chars := hc.identifier_chars
        key_ends := fun _ => hgap_ne
        operator_ends := Operator.admits_blank hafter hafter_ne operand
        operand_nonempty := hoperand.nonempty
        operand_trimmed := hoperand.trim_eq }
    exact ⟨_, _, l, rfl, String.ofList_toList.symm, hoperand.operandOf hc.operand⟩

/-- Every condition with texts that can be put in quotes can be written down, and however it is
written down, it is read back. -/
theorem read_written (hc : c.Quotable) :
    (∃ source : String, c.WrittenAs source.toList) ∧
      ∀ source : String, c.WrittenAs source.toList → Condition.read source = .ok c := by
  constructor
  · obtain ⟨cs, hcs⟩ := hc.exists_written
    exact ⟨String.ofList cs, by rwa [String.toList_ofList]⟩
  · intro source hsource
    exact read_condition_eq_ok_iff.2 (hsource.conditionOf hc)

end

/-- A list with commas, brackets, an operator, both kinds of quotes, an empty and a blank item. -/
def crowd : Condition :=
  ⟨"camp.mood", .mem, .list ["a, b", "", " ] ", "it's", "x >= 1 in [\"y\"]"]⟩

theorem quotable_crowd : crowd.Quotable where
  identifier_nonempty := by decide
  identifier_chars := by
    have hall : crowd.identifier.toList.all isKeyChar = true := rfl
    exact List.all_eq_true.1 hall
  operand := by
    refine .list ?_
    simp only [List.forall_mem_cons, Quotable]
    decide +kernel

def crowdSource : String :=
  "  camp.mood  in\t[ 'a, b' ,\"\", ' ] ', \"it's\" ,'x >= 1 in [\"y\"]']\n"

theorem read_written_crowd :
    crowd.Quotable ∧ crowd.WrittenAs crowdSource.toList ∧
      Condition.read crowdSource = .ok crowd := by
  have hnil : allBlank [] = true := rfl
  have hspace : allBlank [' '] = true := rfl
  have hspaces : allBlank [' ', ' '] = true := rfl
  have htab : allBlank ['\t'] = true := rfl
  have hline : allBlank ['\n'] = true := rfl
  have single (text : String) (h : '\'' ∉ text.toList) :
      Quoted text.toList ('\'' :: (text.toList ++ ['\''])) := .intro rfl h
  have double (text : String) (h : '"' ∉ text.toList) :
      Quoted text.toList ('"' :: (text.toList ++ ['"'])) := .intro rfl h
  have hitems := QuotedItems.more hspace hspace (single "a, b" (by decide))
    (.more hnil hnil (double "" (by decide))
    (.more hspace hnil (single " ] " (by decide))
    (.more hspace hspace (double "it's" (by decide))
    (.last hnil hnil (single "x >= 1 in [\"y\"]" (by decide))))))
  have hwritten : crowd.WrittenAs _ := .intro hspaces hspaces (List.cons_ne_nil _ _) htab
    (List.cons_ne_nil _ _) hline (.list hitems)
  have hsource : crowd.WrittenAs crowdSource.toList := hwritten
  exact ⟨quotable_crowd, hsource, (read_written quotable_crowd).2 crowdSource hsource⟩

end SeededText
