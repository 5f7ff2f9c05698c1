import SeededText.Proofs.FirstFault
import SeededText.Proofs.Text.Trim
import SeededText.Template.Attributes

/-!
# The grammar of attributes

What may stand in the tag of an option is said here without the reader: attributes one after another,
blanks between two of them, and each a name, an equals sign and a value in quotes (`AttributesOf`).

The reader knows no attributes in advance.  It cuts at the next equals sign and takes what stands in
front of it for a name, and it does not care which quotes and equals signs stand in values.  That the
cut is at the right places rests on two things: neither name holds an equals sign or a blank, and a
value holds no quote.  So an attribute in front of a text is read exactly as it is written
(`Attribute.read_of_writtenAs`, `Attribute.writtenAs_of_read`), whatever follows it.

Which attribute fills which slot, and that none is filled twice, is a matter of the list alone and not
of the text (`foldlM_add_eq_ok_iff`).
-/

namespace SeededText

open Text

/-! ## 1. Written attributes -/

/-- The name of the attribute that every option has. -/
def titleName : List Char :=
  ['t', 'i', 't', 'l', 'e']

/-- The name of the attribute that an option may have. -/
def conditionName : List Char :=
  ['c', 'o', 'n', 'd', 'i', 't', 'i', 'o', 'n']

/-- The attribute as it may be written: one of the two names, an equals sign with any blanks around it,
and a value in quotes, which holds none. -/
inductive Attribute.WrittenAs : Attribute → List Char → Prop where
  | intro {name value before after : List Char} (hname : name = titleName ∨ name = conditionName)
    (hbefore : allBlank before = true) (hafter : allBlank after = true) (hvalue : '"' ∉ value) :
    WrittenAs ⟨name, value⟩ (name ++ before ++ '=' :: (after ++ '"' :: (value ++ ['"'])))

/-- The attributes as they may be written: one after another, with a blank at least between two of
them, and with nothing but blanks behind the last. -/
inductive AttributesOf : List Attribute → List Char → Prop where
  | none : AttributesOf [] []
  | last {a : Attribute} {cs gap : List Char} (hcs : a.WrittenAs cs) (hgap : allBlank gap = true) :
    AttributesOf [a] (cs ++ gap)
  | more {a next : Attribute} {as : List Attribute} {cs gap rest : List Char}
    (hcs : a.WrittenAs cs) (hgap : allBlank gap = true) (hne : gap ≠ [])
    (hrest : AttributesOf (next :: as) rest) : AttributesOf (a :: next :: as) (cs ++ gap ++ rest)

/-- The values that attributes give to a name, in order. -/
def valuesOf (name : List Char) (as : List Attribute) : List (List Char) :=
  (as.filter fun a => a.name = name).map Attribute.value

section

variable {a : Attribute} {as : List Attribute} {cs rest gap : List Char}

/-! ## 2. One attribute -/

/-- Of a name matters that it is a word without an equals sign. -/
theorem name_is_word {name : List Char} (h : name = titleName ∨ name = conditionName) :
    name ≠ [] ∧ '=' ∉ name ∧ name.any isBlank = false := by
  rcases h with rfl | rfl <;> decide

theorem Attribute.WrittenAs.name (h : a.WrittenAs cs) :
    a.name = titleName ∨ a.name = conditionName := by
  cases h with
  | intro hname => exact hname

theorem Attribute.WrittenAs.ne_nil (h : a.WrittenAs cs) : cs ≠ [] := by
  cases h with
  | intro => simp

/-- What is written begins with a name and so with no blank. -/
theorem Attribute.WrittenAs.startsBlank_append (h : a.WrittenAs cs) (rest : List Char) :
    startsBlank (cs ++ rest) = false := by
  cases h with
  | intro hname => rcases hname with rfl | rfl <;> rfl

/-- An attribute that is written is read, whatever follows it. -/
theorem Attribute.read_of_writtenAs (h : a.WrittenAs cs) (rest : List Char) :
    Attribute.read (cs ++ rest) = .ok (a, rest) := by
  cases h with
  | @intro name value before after hname hbefore hafter hvalue =>
    obtain ⟨hne, hequals, hblank⟩ := name_is_word hname
    have hcut : cut? ['='] (name ++ before ++ '=' :: (after ++ '"' :: (value ++ ['"'])) ++ rest)
        = some (name ++ before, after ++ '"' :: (value ++ '"' :: rest)) := by
      refine cut?_singleton_iff.2 ⟨by simp, ?_⟩
      rw [List.mem_append]
      exact fun hmem => hmem.elim hequals (not_mem_of_allBlank rfl hbefore)
    have htrim : trim (name ++ before) = name := by
      rw [← List.nil_append name, trim_between rfl hbefore]
      exact trim_of_not_blank fun c hc => by simpa using List.any_eq_false.1 hblank c hc
    have hstart : trimStart (after ++ '"' :: (value ++ '"' :: rest))
        = '"' :: (value ++ '"' :: rest) := trimStart_append_of_allBlank hafter _
    have hquote : cut? ['"'] (value ++ '"' :: rest) = some (value, rest) :=
      cut?_singleton_iff.2 ⟨rfl, hvalue⟩
    rw [Attribute.read, hcut]
    simp [htrim, hne, hblank, hstart, hquote]

theorem Attribute.read_eq_ok (h : Attribute.read cs = .ok (a, rest)) :
    ∃ before gap, cs = before ++ '=' :: (gap ++ '"' :: (a.value ++ '"' :: rest)) ∧
      trim before = a.name ∧ allBlank gap = true ∧ '"' ∉ a.value := by
  unfold Attribute.read at h
  split at h
  · cases h
  · next before after hcut =>
    obtain ⟨hcs, -⟩ := cut?_singleton_iff.1 hcut
    dsimp only at h
    split at h
    · cases h
    · split at h
      · next quoted hstart =>
        split at h
        · cases h
        · next value after' hquote =>
          cases h
          obtain ⟨rfl, hvalue⟩ := cut?_singleton_iff.1 hquote
          refine ⟨before, after.takeWhile isBlank, ?_, rfl, List.all_takeWhile, hvalue⟩
          rw [hcs, ← hstart, trimStart, List.takeWhile_append_dropWhile]
      · cases h

/-- An attribute that is read from a text with no blank in front is written there. -/
theorem Attribute.writtenAs_of_read (h : Attribute.read cs = .ok (a, rest))
    (hname : a.name = titleName ∨ a.name = conditionName) (hstart : startsBlank cs = false) :
    ∃ written, a.WrittenAs written ∧ cs = written ++ rest := by
  obtain ⟨before, after, rfl, htrim, hafter, hvalue⟩ := Attribute.read_eq_ok h
  have hbefore : startsBlank before = false := by
    cases before with
    | nil => rfl
    | cons => exact hstart
  obtain ⟨gap, hgap, hsplit⟩ := exists_trimEnd_append before
  rw [trim, trimStart_of_startsBlank hbefore] at htrim
  rw [htrim] at hsplit
  exact ⟨_, .intro hname hgap hafter hvalue, by simp [hsplit]⟩

/-! ## 3. The slots -/

variable {found found' : OptionAttributes}

/-- An attribute fills the slot of its name, which is empty before. -/
theorem add_eq_ok_iff :
    found.add a = .ok found' ↔
      (a.name = titleName ∧ found.title = none ∧ found' = { found with title := some a.value }) ∨
        (a.name = conditionName ∧ found.condition = none ∧
          found' = { found with condition := some a.value }) := by
  constructor
  · intro h
    unfold OptionAttributes.add at h
    split at h
    · next hname =>
      split at h
      · cases h
      · next hslot =>
        cases h
        exact .inl ⟨hname, by simpa using hslot, rfl⟩
    · split at h
      · next hname =>
        split at h
        · cases h
        · next hslot =>
          cases h
          exact .inr ⟨hname, by simpa using hslot, rfl⟩
      · cases h
  · rintro (⟨hname, hslot, rfl⟩ | ⟨hname, hslot, rfl⟩)
    · simp [OptionAttributes.add, hname, titleName, hslot]
    · simp [OptionAttributes.add, hname, conditionName, hslot]

theorem valuesOf_cons (name : List Char) (a : Attribute) (as : List Attribute) :
    valuesOf name (a :: as)
      = if a.name = name then a.value :: valuesOf name as else valuesOf name as := by
  by_cases h : a.name = name <;> simp [valuesOf, h]

/-- A slot holds one value at most, so one that is still to be filled is empty. -/
theorem slot_eq_none {slot filled : Option (List Char)} {value : List Char}
    {more : List (List Char)} (h : filled.toList = slot.toList ++ value :: more) : slot = none := by
  cases slot with
  | none => rfl
  | some => cases filled <;> simp at h

/-- Attributes are added exactly when each has one of the two names and no slot is filled twice. -/
theorem foldlM_add_eq_ok_iff :
    as.foldlM OptionAttributes.add found = .ok found' ↔
      (∀ a ∈ as, a.name = titleName ∨ a.name = conditionName) ∧
        found'.title.toList = found.title.toList ++ valuesOf titleName as ∧
          found'.condition.toList = found.condition.toList ++ valuesOf conditionName as := by
  have hother : titleName ≠ conditionName := by decide
  induction as generalizing found with
  | nil =>
    obtain ⟨title, condition⟩ := found
    obtain ⟨title', condition'⟩ := found'
    have hinj : ∀ x y : Option (List Char), x.toList = y.toList ↔ y = x := by
      intro x y
      cases x <;> cases y <;> simp [eq_comm]
    simp [valuesOf, pure, Except.pure, hinj]
  | cons a as ih =>
    rw [foldlM_cons_eq_ok_iff, List.forall_mem_cons, valuesOf_cons, valuesOf_cons]
    constructor
    · rintro ⟨next, hadd, hfold⟩
      obtain ⟨hnames, htitle, hcondition⟩ := ih.1 hfold
      rcases add_eq_ok_iff.1 hadd with ⟨hname, hslot, rfl⟩ | ⟨hname, hslot, rfl⟩
      · exact ⟨⟨.inl hname, hnames⟩, by simpa [hname, hslot] using htitle,
          by simpa [hname, hother] using hcondition⟩
      · exact ⟨⟨.inr hname, hnames⟩, by simpa [hname, hother.symm] using htitle,
          by simpa [hname, hslot] using hcondition⟩
    · rintro ⟨⟨hname, hnames⟩, htitle, hcondition⟩
      rcases hname with hname | hname
      · rw [if_pos hname] at htitle
        rw [if_neg (by rwa [hname])] at hcondition
        have hslot := slot_eq_none htitle
        exact ⟨_, add_eq_ok_iff.2 (.inl ⟨hname, hslot, rfl⟩),
          ih.2 ⟨hnames, by simpa [hslot] using htitle, hcondition⟩⟩
      · rw [if_neg (by rw [hname]; exact hother.symm)] at htitle
        rw [if_pos hname] at hcondition
        have hslot := slot_eq_none hcondition
        exact ⟨_, add_eq_ok_iff.2 (.inr ⟨hname, hslot, rfl⟩),
          ih.2 ⟨hnames, htitle, by simpa [hslot] using hcondition⟩⟩

/-! ## 4. All attributes -/

theorem readFrom_nil (found : OptionAttributes) : found.readFrom [] = .ok found := by
  rw [OptionAttributes.readFrom]
  rfl

/-- Reading on after one attribute. -/
theorem readFrom_of_read (hread : Attribute.read cs = .ok (a, rest)) (hadd : found.add a = .ok found')
    (hrest : rest = [] ∨ startsBlank rest = true) :
    found.readFrom cs = found'.readFrom (trimStart rest) := by
  have hne : cs ≠ [] := by
    rintro rfl
    cases hread
  rw [OptionAttributes.readFrom, if_neg (by simpa using hne)]
  split
  · next h => rw [hread] at h; cases h
  · next h =>
    rw [hread] at h
    cases h
    split
    · next h => rw [hadd] at h; cases h
    · next h =>
      rw [hadd] at h
      cases h
      refine if_neg ?_
      rcases hrest with rfl | hrest
      · simp
      · simp [hrest]

/-- What is written begins with no blank. -/
theorem AttributesOf.startsBlank_eq (h : AttributesOf as cs) : startsBlank cs = false := by
  cases h with
  | none => rfl
  | last hcs => exact hcs.startsBlank_append _
  | more hcs =>
    rw [List.append_assoc]
    exact hcs.startsBlank_append _

theorem AttributesOf.names (h : AttributesOf as cs) :
    ∀ a ∈ as, a.name = titleName ∨ a.name = conditionName := by
  induction h with
  | none =>
    intro a ha
    cases ha
  | last hcs hgap =>
    intro a ha
    rw [List.mem_singleton.1 ha]
    exact hcs.name
  | more hcs hgap hne hrest ih => exact List.forall_mem_cons.2 ⟨hcs.name, ih⟩

theorem AttributesOf.ne_nil (h : AttributesOf (a :: as) cs) : cs ≠ [] := by
  cases h with
  | last hcs => simp [hcs.ne_nil]
  | more hcs => simp [hcs.ne_nil]

/-- An attribute in front of others, which the blanks in between keep apart from it. -/
theorem AttributesOf.cons (hcs : a.WrittenAs cs) (hrest : rest = [] ∨ startsBlank rest = true)
    (h : AttributesOf as (trimStart rest)) : AttributesOf (a :: as) (cs ++ rest) := by
  have hsplit : rest.takeWhile isBlank ++ trimStart rest = rest := List.takeWhile_append_dropWhile
  have hgap : allBlank (rest.takeWhile isBlank) = true := List.all_takeWhile
  cases as with
  | nil =>
    generalize htail : trimStart rest = tail at h hsplit
    cases h
    rw [← hsplit, List.append_nil]
    exact .last hcs hgap
  | cons next as =>
    rw [← hsplit, ← List.append_assoc]
    refine .more hcs hgap (fun hnil => ?_) h
    -- without a gap the next attribute would stand right behind this one
    rw [hnil, List.nil_append] at hsplit
    rw [hsplit] at h
    rcases hrest with rfl | hblank
    · exact h.ne_nil rfl
    · rw [h.startsBlank_eq] at hblank
      cases hblank

/-- Attributes are read exactly when they are written, and then they are added one after another. -/
theorem readFrom_eq_ok_iff (hstart : startsBlank cs = false) :
    found.readFrom cs = .ok found' ↔
      ∃ as, AttributesOf as cs ∧ as.foldlM OptionAttributes.add found = .ok found' := by
  constructor
  · intro h
    fun_induction OptionAttributes.readFrom found cs with
    | case1 found cs hnil =>
      rw [List.isEmpty_iff] at hnil
      subst hnil
      exact ⟨[], .none, h⟩
    | case2 => cases h
    | case3 => cases h
    | case4 => cases h
    | case5 found cs hne a rest hread next hadd hsep _ ih =>
      obtain ⟨as, has, hfold⟩ := ih (startsBlank_trimStart rest) h
      have hname : a.name = titleName ∨ a.name = conditionName :=
        (add_eq_ok_iff.1 hadd).imp (·.1) (·.1)
      obtain ⟨written, hwritten, rfl⟩ := Attribute.writtenAs_of_read hread hname hstart
      refine ⟨a :: as, .cons hwritten ?_ has, ?_⟩
      · simpa [Classical.or_iff_not_imp_left] using hsep
      · exact foldlM_cons_eq_ok_iff.2 ⟨next, hadd, hfold⟩
  · rintro ⟨as, has, hfold⟩
    induction has generalizing found with
    | none =>
      rw [readFrom_nil]
      exact hfold
    | @last a written gap hcs hgap =>
      obtain ⟨next, hadd, hfold⟩ := foldlM_cons_eq_ok_iff.1 hfold
      cases hfold
      have hblank : gap = [] ∨ startsBlank gap = true := by
        cases gap with
        | nil => exact .inl rfl
        | cons c gap => exact .inr (List.all_eq_true.1 hgap c List.mem_cons_self)
      have htail : trimStart gap = [] := by
        simpa [trimStart] using trimStart_append_of_allBlank hgap []
      rw [readFrom_of_read (Attribute.read_of_writtenAs hcs gap) hadd hblank, htail, readFrom_nil]
    | @more a other as written gap rest hcs hgap hne hrest ih =>
      obtain ⟨next, hadd, hfold⟩ := foldlM_cons_eq_ok_iff.1 hfold
      have hblank : startsBlank (gap ++ rest) = true := by
        obtain ⟨c, gap, rfl⟩ := List.exists_cons_of_ne_nil hne
        exact List.all_eq_true.1 hgap c List.mem_cons_self
      have htail : trimStart (gap ++ rest) = rest := by
        rw [trimStart_append_of_allBlank hgap, trimStart_of_startsBlank hrest.startsBlank_eq]
      rw [List.append_assoc, readFrom_of_read (Attribute.read_of_writtenAs hcs _) hadd (.inr hblank),
        htail]
      exact ih hrest.startsBlank_eq hfold

variable {title : String} {condition : Option String}

/-- Attributes that are written are read as the values of their names. -/
theorem readOptionAttributes_of_attributesOf (has : AttributesOf as cs) (hgap : allBlank gap = true)
    (htitle : valuesOf titleName as = [title.toList])
    (hcondition : valuesOf conditionName as = (condition.map String.toList).toList) :
    readOptionAttributes (gap ++ cs) = .ok (title, condition) := by
  have hfold : as.foldlM OptionAttributes.add ⟨none, none⟩
      = .ok ⟨some title.toList, condition.map String.toList⟩ :=
    foldlM_add_eq_ok_iff.2 ⟨has.names, htitle.symm, hcondition.symm⟩
  have hstart : trimStart (gap ++ cs) = cs := by
    rw [trimStart_append_of_allBlank hgap, trimStart_of_startsBlank has.startsBlank_eq]
  rw [readOptionAttributes, hstart, (readFrom_eq_ok_iff has.startsBlank_eq).2 ⟨as, has, hfold⟩]
  simp [Function.comp_def]

/-- And whatever is read is written as attributes with blanks in front. -/
theorem exists_attributesOf (h : readOptionAttributes cs = .ok (title, condition)) :
    ∃ gap rest as, cs = gap ++ rest ∧ allBlank gap = true ∧ AttributesOf as rest ∧
      valuesOf titleName as = [title.toList] ∧
        valuesOf conditionName as = (condition.map String.toList).toList := by
  unfold readOptionAttributes at h
  split at h
  · cases h
  · next found hread =>
    split at h
    · cases h
    · next text htext =>
      cases h
      obtain ⟨as, has, hfold⟩ := (readFrom_eq_ok_iff (startsBlank_trimStart cs)).1 hread
      obtain ⟨-, htitle, hcondition⟩ := foldlM_add_eq_ok_iff.1 hfold
      refine ⟨cs.takeWhile isBlank, trimStart cs, as, ?_, List.all_takeWhile, has, ?_, ?_⟩
      · exact List.takeWhile_append_dropWhile.symm
      · simpa [htext] using htitle.symm
      · simpa [Function.comp_def] using hcondition.symm

end

/-- The attributes of an option are read exactly when the text is, blanks in front aside, a list of
written attributes in which the title stands once and the condition once at most; and what is read is
what stands in their quotes. -/
theorem readOptionAttributes_eq_ok_iff (cs : List Char) (title : String) (condition : Option String) :
    readOptionAttributes cs = .ok (title, condition) ↔
      ∃ gap rest as, cs = gap ++ rest ∧ allBlank gap = true ∧ AttributesOf as rest ∧
        valuesOf titleName as = [title.toList] ∧
          valuesOf conditionName as = (condition.map String.toList).toList := by
  constructor
  · exact exists_attributesOf
  · rintro ⟨gap, rest, as, rfl, hgap, has, htitle, hcondition⟩
    exact readOptionAttributes_of_attributesOf has hgap htitle hcondition

/-- Equals signs and blanks in values are no concern of the grammar, nor is the order of the names. -/
example : readOptionAttributes " condition = \"a == 1\"\ttitle=\"x= y\" ".toList
    = .ok ("x= y", some "a == 1") := by
  cbv

end SeededText
