import SeededText.Condition.Basic
import SeededText.Proofs.Decimal.Layout

/-!
# The operators agree with each other

Eight operators decide a condition, each by a clause of its own.  Taken together they are one
comparison: inequality denies equality, and of two numbers exactly one of less, equal and greater
holds, with the two other orderings put together from these.  Where one side is no number the
orderings all fail and equality is that of texts.  A list counts as the texts in it, so two lists
admit together what either admits.  A key that the context lacks fails all eight.

What counts as a number is said by the two relations `IsNumber`, and what the text of a value is by
`Value.IsText`; they know nothing of how the clauses are chosen or of how a number is written.
-/

namespace SeededText

/-! ## 1. Numbers and texts -/

/-- The value is a number: a finite one, or a text that reads as one, blanks at its ends aside. -/
inductive Value.IsNumber : Value → Float → Prop where
  | number {x : Float} : x.isFinite = true → IsNumber (.number x) x
  | text {s : String} {x : Float} : Decimal.readFloat? (Text.trim s.toList) = some x →
      x.isFinite = true → IsNumber (.text s) x

/-- The operand is a number: an unquoted scalar that reads as a finite one. -/
inductive Operand.IsNumber : Operand → Float → Prop where
  | scalar {text : String} {y : Float} : Decimal.readFloat? text.toList = some y →
      y.isFinite = true → IsNumber (.scalar text false) y

/-- The text of the value: itself, a number in full with the fewest digits, or a word for a flag. -/
inductive Value.IsText : Value → String → Prop where
  | text (s : String) : IsText (.text s) s
  | number {x : Float} {form : String} : Decimal.Writes x.toModel.unpack form →
      IsText (.number x) form
  | set : IsText (.flag true) "true"
  | unset : IsText (.flag false) "false"

theorem Value.isText_iff {value : Value} {form : String} :
    value.IsText form ↔ value.display = form := by
  constructor
  · intro h
    cases h with
    | text | set | unset => rfl
    | number hwrites => exact (Decimal.writes_iff _ _).1 hwrites
  · rintro rfl
    cases value with
    | text s => exact .text s
    | number x => exact .number ((Decimal.writes_iff _ _).2 rfl)
    | flag b =>
      cases b with
      | true => exact .set
      | false => exact .unset

theorem readFinite?_eq_some_iff {cs : List Char} {x : Float} :
    Decimal.readFinite? cs = some x ↔ Decimal.readFloat? cs = some x ∧ x.isFinite = true := by
  rw [Decimal.readFinite?, Option.filter_eq_some_iff]

theorem Value.number?_eq_some_iff {value : Value} {x : Float} :
    value.number? = some x ↔ value.IsNumber x := by
  constructor
  · intro h
    cases value with
    | text s =>
      obtain ⟨hread, hfinite⟩ := readFinite?_eq_some_iff.1 h
      exact .text hread hfinite
    | number y =>
      rw [Value.number?] at h
      split at h
      · next hfinite =>
        cases h
        exact .number hfinite
      · cases h
    | flag b => cases h
  · intro h
    cases h with
    | number hfinite => rw [Value.number?, if_pos hfinite]
    | text hread hfinite => exact readFinite?_eq_some_iff.2 ⟨hread, hfinite⟩

theorem Operand.number?_eq_some_iff {operand : Operand} {y : Float} :
    operand.number? = some y ↔ operand.IsNumber y := by
  constructor
  · intro h
    cases operand with
    | list => cases h
    | scalar text quoted =>
      cases quoted with
      | true => cases h
      | false =>
        obtain ⟨hread, hfinite⟩ := readFinite?_eq_some_iff.1 h
        exact .scalar hread hfinite
  · intro h
    cases h with
    | scalar hread hfinite => exact readFinite?_eq_some_iff.2 ⟨hread, hfinite⟩

theorem Value.IsNumber.isFinite {value : Value} {x : Float} (h : value.IsNumber x) :
    x.isFinite = true := by
  cases h with
  | number hfinite => exact hfinite
  | text _ hfinite => exact hfinite

theorem Operand.IsNumber.isFinite {operand : Operand} {y : Float} (h : operand.IsNumber y) :
    y.isFinite = true := by
  cases h with
  | scalar _ hfinite => exact hfinite

/-! ## 2. What the operators come to -/

/-- The answers are those of a comparison of two numbers. -/
structure ComparesNumbers (x y : Float) (answer : Operator → Bool) : Prop where
  lt : answer .lt = decide (x < y)
  eq : answer .eq = (x == y)
  exactlyOne : [answer .lt, answer .eq, answer .gt].count true = 1
  le : answer .le = (answer .lt || answer .eq)
  ge : answer .ge = (answer .gt || answer .eq)

/-- The answers are those of two texts, which are equal or not and in no order. -/
structure ComparesTexts (s t : String) (answer : Operator → Bool) : Prop where
  eq : answer .eq = (s == t)
  unordered : ∀ operator ∈ [Operator.lt, .gt, .le, .ge], answer operator = false

/-- What a condition on the key comes to. -/
def Context.decides (context : Context) (key : String) (operand : Operand) (operator : Operator) :
    Bool :=
  Condition.holds ⟨key, operator, operand⟩ context

section

variable {context : Context} {key text : String} {value : Value} {quoted : Bool}

theorem decides_of_missing (hget : context.get? key = none) (operator : Operator)
    (operand : Operand) : context.decides key operand operator = false := by
  simp [Context.decides, Condition.holds, hget]

theorem decides_of_present (hget : context.get? key = some value) (operator : Operator)
    (operand : Operand) :
    context.decides key operand operator = Condition.holdsOf ⟨key, operator, operand⟩ value := by
  simp [Context.decides, Condition.holds, hget]

theorem decides_ne (hget : context.get? key = some value) (text : String) (quoted : Bool) :
    context.decides key (.scalar text quoted) .ne
      = !context.decides key (.scalar text quoted) .eq := by
  rw [decides_of_present hget, decides_of_present hget]
  rfl

theorem comparesNumbers {x y : Float} (hget : context.get? key = some value)
    (hx : value.IsNumber x) (hy : (Operand.scalar text quoted).IsNumber y) :
    ComparesNumbers x y (context.decides key (.scalar text quoted)) := by
  have hone := Double.exactlyOne hx.isFinite hy.isFinite
  rw [← Value.number?_eq_some_iff] at hx
  rw [← Operand.number?_eq_some_iff] at hy
  have hcompares : ∀ order, value.compares (.scalar text quoted) order = order x y := by
    simp [Value.compares, hx, hy]
  have hequals : value.equals (.scalar text quoted) text = (x == y) := by
    simp [Value.equals, hx, hy]
  have hlt := decides_of_present hget .lt (.scalar text quoted)
  have heq := decides_of_present hget .eq (.scalar text quoted)
  have hgt := decides_of_present hget .gt (.scalar text quoted)
  have hle := decides_of_present hget .le (.scalar text quoted)
  have hge := decides_of_present hget .ge (.scalar text quoted)
  simp only [Condition.holdsOf, hcompares, hequals] at hlt heq hgt hle hge
  refine ⟨hlt, heq, ?_, ?_, ?_⟩
  · rw [hlt, heq, hgt]
    exact hone
  · rw [hle, hlt, heq]
    exact Double.le_eq_lt_or_beq x y
  · rw [hge, hgt, heq, Double.beq_comm x y]
    exact Double.le_eq_lt_or_beq y x

theorem comparesTexts (hget : context.get? key = some value)
    (h : ¬ ∃ x y, value.IsNumber x ∧ (Operand.scalar text quoted).IsNumber y) :
    ComparesTexts value.display text (context.decides key (.scalar text quoted)) := by
  have hnone : value.number? = none ∨ (Operand.scalar text quoted).number? = none := by
    cases hx : value.number? with
    | none => exact .inl rfl
    | some x =>
      cases hy : (Operand.scalar text quoted).number? with
      | none => exact .inr rfl
      | some y =>
        exact absurd ⟨x, y, Value.number?_eq_some_iff.1 hx, Operand.number?_eq_some_iff.1 hy⟩ h
  have hcompares : ∀ order, value.compares (.scalar text quoted) order = false := by
    intro order
    rcases hnone with hx | hy
    · simp [Value.compares, hx]
    · cases value.number? <;> simp [Value.compares, hy]
  have hequals : value.equals (.scalar text quoted) text = (value.display == text) := by
    rcases hnone with hx | hy
    · simp [Value.equals, hx]
    · cases hx : value.number? <;> simp [Value.equals, hx, hy]
  refine ⟨?_, ?_⟩
  · rw [decides_of_present hget]
    exact hequals
  · intro operator hmem
    rw [decides_of_present hget]
    simp only [List.mem_cons, List.not_mem_nil, or_false] at hmem
    rcases hmem with rfl | rfl | rfl | rfl
    · exact hcompares _
    · exact hcompares _
    · exact hcompares _
    · exact hcompares _

/-- A value is among the items of two lists if it is among those of either. -/
theorem decides_append (context : Context) (key : String) (items others : List String) :
    context.decides key (.list (items ++ others)) .mem
      = (context.decides key (.list items) .mem || context.decides key (.list others) .mem) := by
  cases hget : context.get? key with
  | none =>
    rw [decides_of_missing hget, decides_of_missing hget, decides_of_missing hget, Bool.or_false]
  | some value =>
    rw [decides_of_present hget, decides_of_present hget, decides_of_present hget]
    exact List.contains_append

end

/-! ## 3. One comparison -/

/-- The operators are one comparison.  All fail for a key that is missing.  For a key that has a
value, which has one text, inequality denies equality with any scalar; where both sides are numbers
the operators compare them, and elsewhere they compare texts.  And two lists admit what either
admits. -/
theorem operators_agree (context : Context) (key : String) :
    (context.get? key = none →
      ∀ operator operand, context.decides key operand operator = false) ∧
    (∀ value, context.get? key = some value →
      (∀ form, value.IsText form ↔ value.display = form) ∧
      ∀ text quoted,
        context.decides key (.scalar text quoted) .ne
          = (!context.decides key (.scalar text quoted) .eq) ∧
        (∀ x y, value.IsNumber x → (Operand.scalar text quoted).IsNumber y →
          ComparesNumbers x y (context.decides key (.scalar text quoted))) ∧
        ((¬ ∃ x y, value.IsNumber x ∧ (Operand.scalar text quoted).IsNumber y) →
          ComparesTexts value.display text (context.decides key (.scalar text quoted)))) ∧
    ∀ items others, context.decides key (.list (items ++ others)) .mem
      = (context.decides key (.list items) .mem || context.decides key (.list others) .mem) := by
  refine ⟨?_, ?_, decides_append context key⟩
  · intro hget operator operand
    exact decides_of_missing hget operator operand
  · intro value hget
    refine ⟨fun _ => Value.isText_iff, fun text quoted => ?_⟩
    refine ⟨decides_ne hget text quoted, ?_, comparesTexts hget⟩
    intro x y hx hy
    exact comparesNumbers hget hx hy

/-- A number that is kept as a text, with blanks, and one that is kept as a number. -/
def purse : Context :=
  ⟨[("gold", .text " 250 "), ("coins", .number 250)]⟩

/-- A missing key, two numerals for different numbers, a quoted numeral that is not the text with
blanks, and the same one as the text of a number. -/
theorem operators_agree_purse :
    (purse.get? "silver" = none ∧ purse.decides "silver" (.scalar "x" false) .ne = false) ∧
    (Value.text " 250 ").IsNumber 250 ∧
    (Operand.scalar "2.5e3" false).IsNumber 2500 ∧
    ComparesNumbers 250 2500 (purse.decides "gold" (.scalar "2.5e3" false)) ∧
    (¬ ∃ x y, (Value.text " 250 ").IsNumber x ∧ (Operand.scalar "250" true).IsNumber y) ∧
    ComparesTexts " 250 " "250" (purse.decides "gold" (.scalar "250" true)) ∧
    (Value.number 250).IsText "250" ∧
    ComparesTexts "250" "250" (purse.decides "coins" (.scalar "250" true)) ∧
    purse.decides "coins" (.scalar "250" true) .eq = true := by
  have hsilver : purse.get? "silver" = none := rfl
  have hgold : purse.get? "gold" = some (.text " 250 ") := rfl
  have hcoins : purse.get? "coins" = some (.number 250) := rfl
  have hvalue : (Value.text " 250 ").IsNumber 250 := .text (by decide +kernel) (by decide +kernel)
  have hoperand : (Operand.scalar "2.5e3" false).IsNumber 2500 :=
    .scalar (by decide +kernel) (by decide +kernel)
  have hquoted : ∀ value : Value, ¬ ∃ x y, value.IsNumber x ∧
      (Operand.scalar "250" true).IsNumber y := by
    rintro value ⟨x, y, -, hy⟩
    cases hy
  have hdisplay : (Value.number 250).display = "250" := by decide +kernel
  obtain ⟨htext, htexts⟩ := (operators_agree purse "coins").2.1 _ hcoins
  have hcompares := (htexts "250" true).2.2 (hquoted _)
  rw [hdisplay] at hcompares
  refine ⟨⟨hsilver, (operators_agree purse "silver").1 hsilver .ne _⟩, hvalue, hoperand, ?_,
    hquoted _, ?_, (htext _).2 hdisplay, hcompares, hcompares.eq⟩
  · exact (((operators_agree purse "gold").2.1 _ hgold).2 _ _).2.1 _ _ hvalue hoperand
  · exact (((operators_agree purse "gold").2.1 _ hgold).2 _ _).2.2 (hquoted _)

end SeededText
