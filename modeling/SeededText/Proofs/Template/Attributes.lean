import SeededText.Proofs.Template.AttributeGrammar

/-!
# The values of an option tag

Attributes may be written in two orders and with any blanks between them.  `optionAttributes` is
the one way to write a title and a condition that printing uses, and reading it gives them back.

What matters of other ways to write them is where closing marks can stand: only inside the values,
and the values stand in the text as they are.
-/

namespace SeededText

open Text

/-! ## 1. Writing attributes -/

/-- A name, an equals sign and a value in quotes. -/
def Attribute.spelling (a : Attribute) : List Char :=
  a.name ++ '=' :: '"' :: a.value ++ ['"']

def titleAttribute (title : String) : Attribute :=
  ⟨['t', 'i', 't', 'l', 'e'], title.toList⟩

def conditionAttribute (condition : String) : Attribute :=
  ⟨['c', 'o', 'n', 'd', 'i', 't', 'i', 'o', 'n'], condition.toList⟩

/-- The attributes of an option, each after one space. -/
def optionAttributes (title : String) : Option String → List Char
  | none => ' ' :: (titleAttribute title).spelling
  | some condition =>
    ' ' :: (titleAttribute title).spelling ++ ' ' :: (conditionAttribute condition).spelling

/-- The values of an option's attributes. -/
def optionValues (title : String) (condition : Option String) : List (List Char) :=
  title.toList :: (condition.map String.toList).toList

theorem Attribute.writtenAs_spelling {a : Attribute}
    (hname : a.name = titleName ∨ a.name = conditionName) (hvalue : '"' ∉ a.value) :
    a.WrittenAs a.spelling := by
  have hnone : allBlank [] = true := rfl
  have hwritten := WrittenAs.intro hname hnone hnone hvalue
  simpa [Attribute.spelling] using hwritten

/-- What printing writes is read as what it was written for. -/
theorem readOptionAttributes_optionAttributes {title : String} {condition : Option String}
    (h : ∀ value ∈ optionValues title condition, '"' ∉ value) :
    readOptionAttributes (optionAttributes title condition) = .ok (title, condition) := by
  have htitle : (titleAttribute title).WrittenAs (titleAttribute title).spelling :=
    Attribute.writtenAs_spelling (.inl rfl) (h _ List.mem_cons_self)
  have hnone : allBlank [] = true := rfl
  have hspace : allBlank [' '] = true := rfl
  cases condition with
  | none =>
    have has := AttributesOf.last htitle hnone
    rw [List.append_nil] at has
    show readOptionAttributes ([' '] ++ _) = _
    exact readOptionAttributes_of_attributesOf has hspace rfl rfl
  | some condition =>
    have hcondition :
        (conditionAttribute condition).WrittenAs (conditionAttribute condition).spelling :=
      Attribute.writtenAs_spelling (.inr rfl) (h _ (by simp [optionValues, conditionAttribute]))
    have has := AttributesOf.last hcondition hnone
    rw [List.append_nil] at has
    have hboth := AttributesOf.more htitle hspace (List.cons_ne_nil _ _) has
    rw [List.append_assoc] at hboth
    show readOptionAttributes ([' '] ++ _) = _
    exact readOptionAttributes_of_attributesOf hboth hspace rfl rfl

/-! ## 2. What reading finds -/

/-- The characters of which two close a tag. -/
def closers : List Char :=
  ['\x7d', ']']

theorem isBlank_of_mem_closers {x : Char} (hx : x ∈ closers) : isBlank x = false := by
  have hall : closers.all (fun c => !isBlank c) = true := rfl
  simpa using List.all_eq_true.1 hall x hx

theorem ne_of_mem_closers {c x : Char} (hx : x ∈ closers) (hc : c ∉ closers) : c ≠ x := by
  rintro rfl
  exact hc hx

theorem not_mem_names {x : Char} (hx : x ∈ closers) :
    x ∉ ['t', 'i', 't', 'l', 'e'] ∧ x ∉ ['c', 'o', 'n', 'd', 'i', 't', 'i', 'o', 'n'] :=
  ⟨not_mem_of_all hx rfl, not_mem_of_all hx rfl⟩

/-- The values found so far. -/
def OptionAttributes.values (found : OptionAttributes) : List (List Char) :=
  found.title.toList ++ found.condition.toList

theorem values_of_add_eq_ok {found found' : OptionAttributes} {a : Attribute}
    (h : found.add a = .ok found') (value : List Char) :
    value ∈ found'.values ↔ value ∈ found.values ∨ value = a.value := by
  rcases add_eq_ok_iff.1 h with ⟨-, hslot, rfl⟩ | ⟨-, hslot, rfl⟩
  · simp [OptionAttributes.values, hslot, or_comm]
  · simp [OptionAttributes.values, hslot]

theorem not_mem_name_of_add_eq_ok {found found' : OptionAttributes} {a : Attribute} {x : Char}
    (h : found.add a = .ok found') (hx : x ∈ closers) : x ∉ a.name := by
  rcases add_eq_ok_iff.1 h with ⟨hname, -, -⟩ | ⟨hname, -, -⟩
  · rw [hname]
    exact (not_mem_names hx).1
  · rw [hname]
    exact (not_mem_names hx).2

/-- What an attribute holds of closing marks stands in its value. -/
theorem Attribute.doubled_of_read {cs rest : List Char} {a : Attribute} {x : Char}
    (h : Attribute.read cs = .ok (a, rest)) (hx : x ∈ closers) (hname : x ∉ a.name)
    (hdouble : [x, x] <:+: cs) : [x, x] <:+: a.value ∨ [x, x] <:+: rest := by
  have hequals : '=' ≠ x := ne_of_mem_closers hx (by decide)
  have hquote : '"' ≠ x := ne_of_mem_closers hx (by decide)
  obtain ⟨before, gap, rfl, htrim, hgap, -⟩ := Attribute.read_eq_ok h
  rw [doubled_append_cons hequals, doubled_append_cons hquote, doubled_append_cons hquote,
    ← doubled_trim (isBlank_of_mem_closers hx), htrim] at hdouble
  rcases hdouble with hbefore | hgap' | hvalue
  · exact absurd (mem_of_doubled hbefore) hname
  · exact absurd hgap' (not_doubled_of_allBlank (isBlank_of_mem_closers hx) hgap)
  · exact hvalue

theorem trimStart_suffix (cs : List Char) : trimStart cs <:+ cs :=
  List.dropWhile_suffix isBlank

/-- The values that are read stand in the text, and all closing marks stand in values. -/
theorem values_of_readFrom_eq_ok {found found' : OptionAttributes} {cs : List Char}
    (h : found.readFrom cs = .ok found') :
    (∀ value ∈ found.values, value ∈ found'.values) ∧
      (∀ value ∈ found'.values, value ∈ found.values ∨ ('"' ∉ value ∧ value <:+: cs)) ∧
        ∀ x ∈ closers, [x, x] <:+: cs → ∃ value ∈ found'.values, [x, x] <:+: value := by
  fun_induction OptionAttributes.readFrom found cs with
  | case1 found cs hnil =>
    cases h
    rw [List.isEmpty_iff] at hnil
    subst hnil
    refine ⟨fun _ hv => hv, fun _ hv => .inl hv, fun x _ hdouble => ?_⟩
    exact absurd (mem_of_doubled hdouble) List.not_mem_nil
  | case2 => cases h
  | case3 => cases h
  | case4 => cases h
  | case5 found cs hne a rest hread found₁ hadd hrest _ ih =>
    obtain ⟨hkept, hfound, hdoubled⟩ := ih h
    obtain ⟨before, gap, hcs, -, -, hquote⟩ := Attribute.read_eq_ok hread
    refine ⟨fun value hv => ?_, fun value hv => ?_, fun x hx hdouble => ?_⟩
    · exact hkept value ((values_of_add_eq_ok hadd value).2 (.inl hv))
    · rcases hfound value hv with hv | ⟨hvalue, hpart⟩
      · rcases (values_of_add_eq_ok hadd value).1 hv with hv | rfl
        · exact .inl hv
        · exact .inr ⟨hquote, before ++ '=' :: gap ++ ['"'], '"' :: rest, by rw [hcs]; simp⟩
      · refine .inr ⟨hvalue, (hpart.trans (trimStart_suffix rest).isInfix).trans ?_⟩
        exact ⟨before ++ '=' :: gap ++ '"' :: a.value ++ ['"'], [], by rw [hcs]; simp⟩
    · rcases Attribute.doubled_of_read hread hx (not_mem_name_of_add_eq_ok hadd hx) hdouble with
        hvalue | hrest'
      · exact ⟨a.value, hkept _ ((values_of_add_eq_ok hadd _).2 (.inr rfl)), hvalue⟩
      · exact hdoubled x hx ((doubled_trimStart (isBlank_of_mem_closers hx) rest).2 hrest')

/-! ## 3. Written anew -/

variable {cs : List Char} {title : String} {condition : Option String}

theorem values_of_readOptionAttributes (h : readOptionAttributes cs = .ok (title, condition)) :
    (∀ value ∈ optionValues title condition, '"' ∉ value ∧ value <:+: cs) ∧
      ∀ x ∈ closers, [x, x] <:+: cs →
        ∃ value ∈ optionValues title condition, [x, x] <:+: value := by
  unfold readOptionAttributes at h
  split at h
  · cases h
  · next found hfound =>
    split at h
    · cases h
    · next text htext =>
      cases h
      have hvalues : optionValues (String.ofList text) (found.condition.map String.ofList)
          = found.values := by
        simp [optionValues, OptionAttributes.values, htext, Function.comp_def]
      obtain ⟨-, hread, hdoubled⟩ := values_of_readFrom_eq_ok hfound
      rw [hvalues]
      constructor
      · intro value hv
        rcases hread value hv with hv | ⟨hquote, hpart⟩
        · cases hv
        · exact ⟨hquote, hpart.trans (trimStart_suffix cs).isInfix⟩
      · intro x hx hdouble
        exact hdoubled x hx ((doubled_trimStart (isBlank_of_mem_closers hx) cs).2 hdouble)

theorem Attribute.doubled_spelling_append {a : Attribute} {x : Char} (hx : x ∈ closers)
    (hname : x ∉ a.name) (rest : List Char) :
    [x, x] <:+: a.spelling ++ rest ↔ [x, x] <:+: a.value ∨ [x, x] <:+: rest := by
  have hequals : '=' ≠ x := ne_of_mem_closers hx (by decide)
  have hquote : '"' ≠ x := ne_of_mem_closers hx (by decide)
  have hsplit : a.spelling ++ rest = a.name ++ '=' :: '"' :: (a.value ++ '"' :: rest) := by
    simp [Attribute.spelling]
  rw [hsplit, doubled_append_cons hequals, doubled_cons_of_ne hquote, doubled_append_cons hquote]
  exact or_iff_right fun h => hname (mem_of_doubled h)

/-- The attributes that printing writes hold the closing marks that their values hold. -/
theorem doubled_optionAttributes {x : Char} (hx : x ∈ closers) :
    [x, x] <:+: optionAttributes title condition
      ↔ ∃ value ∈ optionValues title condition, [x, x] <:+: value := by
  have hblank : ' ' ≠ x := ne_of_mem_closers hx (by decide)
  have htitle : x ∉ (titleAttribute title).name := (not_mem_names hx).1
  cases condition with
  | none =>
    rw [optionAttributes, doubled_cons_of_ne hblank, ← List.append_nil (titleAttribute _).spelling,
      Attribute.doubled_spelling_append hx htitle]
    simp [optionValues, titleAttribute]
  | some condition =>
    have hcondition : x ∉ (conditionAttribute condition).name := (not_mem_names hx).2
    rw [optionAttributes, List.cons_append, doubled_cons_of_ne hblank,
      Attribute.doubled_spelling_append hx htitle, doubled_cons_of_ne hblank,
      ← List.append_nil (conditionAttribute _).spelling,
      Attribute.doubled_spelling_append hx hcondition]
    simp [optionValues, titleAttribute, conditionAttribute]

/-- Other attributes with the same values are read as the same values, and hold the same closing
marks. -/
theorem doubled_optionAttributes_of_read (h : readOptionAttributes cs = .ok (title, condition))
    {x : Char} (hx : x ∈ closers) :
    [x, x] <:+: optionAttributes title condition ↔ [x, x] <:+: cs := by
  obtain ⟨hvalues, hdoubled⟩ := values_of_readOptionAttributes h
  rw [doubled_optionAttributes hx]
  constructor
  · rintro ⟨value, hv, hdouble⟩
    exact hdouble.trans (hvalues value hv).2
  · exact hdoubled x hx

/-! ## 4. What reading refuses -/

/-- The fault is one of the attributes, not of the place where the tag stands. -/
def OptionFault.isOfAttributes : OptionFault → Bool
  | .missingTitle | .expectedAttribute _ | .malformedName _ | .unquotedValue _
  | .unterminatedValue _ | .unknownAttribute _ | .duplicateAttribute _ | .unseparated => true
  | .missingClose | .outsideGroup | .emptyGroup | .strayText | .strayContent => false

theorem isOfAttributes_of_read {fault : OptionFault} (h : Attribute.read cs = .error fault) :
    fault.isOfAttributes = true := by
  unfold Attribute.read at h
  split at h
  · cases h
    rfl
  · dsimp only at h
    split at h
    · cases h
      rfl
    · split at h
      · split at h <;> cases h
        rfl
      · cases h
        rfl

theorem isOfAttributes_of_add {found : OptionAttributes} {a : Attribute} {fault : OptionFault}
    (h : found.add a = .error fault) : fault.isOfAttributes = true := by
  unfold OptionAttributes.add at h
  split at h
  · split at h <;> cases h
    rfl
  · split at h
    · split at h <;> cases h
      rfl
    · cases h
      rfl

theorem isOfAttributes_of_readFrom {found : OptionAttributes} {fault : OptionFault}
    (h : found.readFrom cs = .error fault) : fault.isOfAttributes = true := by
  fun_induction OptionAttributes.readFrom found cs with
  | case1 => cases h
  | case2 found cs hne first hread =>
    cases h
    exact isOfAttributes_of_read hread
  | case3 found cs hne a rest hread first hadd =>
    cases h
    exact isOfAttributes_of_add hadd
  | case4 =>
    cases h
    rfl
  | case5 found cs hne a rest hread found₁ hadd hrest _ ih => exact ih h

theorem isOfAttributes_of_readOptionAttributes {fault : OptionFault}
    (h : readOptionAttributes cs = .error fault) : fault.isOfAttributes = true := by
  unfold readOptionAttributes at h
  split at h
  · next hread =>
    cases h
    exact isOfAttributes_of_readFrom hread
  · split at h <;> cases h
    rfl

end SeededText
