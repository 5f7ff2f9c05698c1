import SeededText.Proofs.Template.Attributes
import SeededText.Proofs.Template.Grammar

/-!
# Writing templates

There is one way to write each tag without a blank that is not needed, and `Tag.spelling` is it.
`Template.print` writes a template with these.  Printing forgets how the author spaced the tags, in
which order the attributes of an option stood, and the blanks between options.

A tag that is written anew is the same tag, and holds the closing marks that it held.
-/

namespace SeededText

open Text

/-! ## 1. The printer -/

/-- What is written between the marks of a tag. -/
def Tag.content : Tag → List Char
  | .openIf condition => '#' :: 'i' :: 'f' :: ' ' :: condition ++ [' ']
  | .turnElse => ['e', 'l', 's', 'e']
  | .closeIf => ['/', 'i', 'f']
  | .variable name => name
  | .openOptions => ['o', 'p', 't', 'i', 'o', 'n', 's']
  | .closeOptions => ['/', 'o', 'p', 't', 'i', 'o', 'n', 's']
  | .openOption attributes => 'o' :: 'p' :: 't' :: 'i' :: 'o' :: 'n' :: attributes
  | .bareOption => ['o', 'p', 't', 'i', 'o', 'n']
  | .closeOption => ['/', 'o', 'p', 't', 'i', 'o', 'n']

/-- A tag as it is written. -/
def Tag.spelling (tag : Tag) : List Char :=
  match tag with
  | .openIf _ | .turnElse | .closeIf | .variable _ =>
    '\x7b' :: '\x7b' :: tag.content ++ ['\x7d', '\x7d']
  | .openOptions | .closeOptions | .openOption _ | .bareOption | .closeOption =>
    '[' :: '[' :: tag.content ++ [']', ']']

mutual

/-- A node as it is written. -/
def Node.spelling : Node → List Char
  | .literal text => text.toList
  | .variable name => (Tag.variable name.toList).spelling
  | .conditional condition thenBranch none =>
    (Tag.openIf condition.toList).spelling ++ Node.spellingList thenBranch ++ Tag.closeIf.spelling
  | .conditional condition thenBranch (some elseBranch) =>
    (Tag.openIf condition.toList).spelling ++ Node.spellingList thenBranch
      ++ Tag.turnElse.spelling ++ Node.spellingList elseBranch ++ Tag.closeIf.spelling
  | .optionGroup _ options =>
    Tag.openOptions.spelling ++ Node.spellingChoices options ++ Tag.closeOptions.spelling

def Node.spellingList : List Node → List Char
  | [] => []
  | node :: nodes => node.spelling ++ Node.spellingList nodes

def Node.spellingChoices : List (Choice Node) → List Char
  | [] => []
  | ⟨title, condition, body⟩ :: options =>
    (Tag.openOption (optionAttributes title condition)).spelling ++ Node.spellingList body
      ++ Tag.closeOption.spelling ++ Node.spellingChoices options

end

/-- The template as it is written. -/
def Template.print (template : Template) : String :=
  String.ofList (Node.spellingList template.nodes)

/-! ## 2. Tags between double braces -/

section

variable {cs : List Char} {tag : Tag} {x : Char}

theorem Tag.InBraces.spelling (h : Tag.InBraces cs tag) :
    tag.spelling = '\x7b' :: '\x7b' :: tag.content ++ ['\x7d', '\x7d'] := by
  cases h <;> rfl

theorem isNameChar_of_isIdentifier {name : List Char} (h : isIdentifier name = true) :
    ∀ c ∈ name, isNameChar c = true := by
  cases name with
  | nil => exact fun c hc => nomatch hc
  | cons d ds =>
    rw [isIdentifier, Bool.and_eq_true, List.all_eq_true] at h
    intro c hc
    rcases List.mem_cons.1 hc with rfl | hc
    · exact isNameChar_of_isLetter h.1
    · exact h.2 c hc

theorem not_mem_of_isIdentifier {name : List Char} (h : isIdentifier name = true)
    (hx : x ∈ closers) : x ∉ name := by
  intro hmem
  have hname := isNameChar_of_isIdentifier h x hmem
  have hall : closers.all (fun c => !isNameChar c) = true := rfl
  have hnot := List.all_eq_true.1 hall x hx
  simp [hname] at hnot

theorem Tag.InBraces.openIf_content {condition : List Char} (h : trim condition = condition) :
    Tag.InBraces (trim (Tag.openIf condition).content) (.openIf condition) := by
  have hend : trimEnd condition = condition := by
    rw [← h, trim, trimEnd_trimEnd]
  have htrim : trim (Tag.openIf condition).content
      = '#' :: 'i' :: 'f' :: trimEnd (' ' :: condition) := by
    have hspace : allBlank [' '] = true := rfl
    rw [← trimEnd_append_of_allBlank hspace, Tag.content, List.cons_append, trim_cons rfl,
      List.cons_append, trimEnd_cons rfl, List.cons_append, trimEnd_cons rfl]
  rw [htrim]
  cases condition with
  | nil => exact .bareIf
  | cons c rest =>
    have hopen : Tag.InBraces ('#' :: 'i' :: 'f' :: ' ' :: c :: rest)
        (.openIf (trim (' ' :: c :: rest))) := .openIf rfl
    rw [trim_cons_blank rfl, h] at hopen
    rw [trimEnd, hend]
    exact hopen

theorem Tag.InBraces.content (h : Tag.InBraces (trim cs) tag) :
    Tag.InBraces (trim tag.content) tag := by
  generalize trim cs = t at h
  cases h with
  | bareIf => exact .bareIf
  | openIf hc => exact .openIf_content (trim_trim _)
  | turnElse => exact .turnElse
  | closeIf => exact .closeIf
  | name hid helse =>
    have htrim : trim t = t := trim_of_not_blank fun c hc =>
      isBlank_of_isNameChar (isNameChar_of_isIdentifier hid c hc)
    rw [Tag.content, htrim]
    exact .name hid helse

theorem doubled_openIf_content (hx : x ∈ closers) (condition : List Char) :
    [x, x] <:+: (Tag.openIf condition).content ↔ [x, x] <:+: condition := by
  have hif : x ∉ ['#', 'i', 'f', ' '] := not_mem_of_all hx rfl
  have hspace : allBlank [' '] = true := rfl
  have hcontent : (Tag.openIf condition).content = ['#', 'i', 'f', ' '] ++ (condition ++ [' ']) :=
    rfl
  rw [hcontent, doubled_append_of_not_mem hif,
    doubled_append_blank (isBlank_of_mem_closers hx) hspace]

theorem Tag.InBraces.doubled_content (h : Tag.InBraces (trim cs) tag) (hx : x ∈ closers) :
    [x, x] <:+: tag.content ↔ [x, x] <:+: cs := by
  have hblank : isBlank x = false := isBlank_of_mem_closers hx
  have hif : x ∉ ['#', 'i', 'f'] := not_mem_of_all hx rfl
  rw [← doubled_trim hblank cs]
  generalize trim cs = t at h
  cases h with
  | bareIf =>
    rw [doubled_openIf_content hx]
    exact (doubled_append_of_not_mem hif).symm
  | @openIf c rest hc =>
    rw [doubled_openIf_content hx, doubled_trim hblank]
    exact (doubled_append_of_not_mem hif).symm
  | turnElse => exact Iff.rfl
  | closeIf => exact Iff.rfl
  | name => exact Iff.rfl

theorem Tag.InBraces.getLast?_content (h : Tag.InBraces cs tag) (hx : x ∈ closers) :
    tag.content.getLast? ≠ some x := by
  have hspace : ' ' ≠ x := ne_of_mem_closers hx (by decide)
  cases h with
  | bareIf => exact fun hlast => hspace (Option.some.inj hlast)
  | openIf hc =>
    rw [Tag.content, List.getLast?_concat]
    exact fun hlast => hspace (Option.some.inj hlast)
  | turnElse => exact fun hlast => ne_of_mem_closers hx (by decide) (Option.some.inj hlast)
  | closeIf => exact fun hlast => ne_of_mem_closers hx (by decide) (Option.some.inj hlast)
  | name hid helse =>
    exact fun hlast => not_mem_of_isIdentifier hid hx (List.mem_of_getLast? hlast)

end

/-! ## 3. Tags between double brackets -/

/-- The second tag is the first one as printing writes it: the attributes of an option are written
anew. -/
inductive Tag.Respells : Tag → Tag → Prop where
  | same {tag : Tag} : (∀ attributes, tag ≠ .openOption attributes) → Respells tag tag
  | openOption {attributes : List Char} {title : String} {condition : Option String} :
      readOptionAttributes attributes = .ok (title, condition) →
        Respells (.openOption attributes) (.openOption (optionAttributes title condition))

section

variable {cs : List Char} {tag tag' : Tag} {x : Char}

theorem Tag.InBraces.eq_of_respells (h : Tag.InBraces cs tag) (hr : Tag.Respells tag tag') :
    tag' = tag := by
  cases hr with
  | same => rfl
  | openOption => cases h

theorem Tag.InBrackets.spelling (h : Tag.InBrackets cs tag) :
    tag.spelling = '[' :: '[' :: tag.content ++ [']', ']'] := by
  cases h <;> rfl

theorem exists_optionAttributes_eq (title : String) (condition : Option String) :
    ∃ rest, optionAttributes title condition = ' ' :: (rest ++ ['"']) := by
  cases condition with
  | none => exact ⟨_, rfl⟩
  | some condition =>
    exact ⟨(titleAttribute title).spelling ++ ' ' :: (conditionAttribute condition).name
      ++ '=' :: '"' :: condition.toList,
      by simp [optionAttributes, Attribute.spelling, conditionAttribute]⟩

theorem Tag.InBrackets.openOption_content (title : String) (condition : Option String) :
    Tag.InBrackets (trim (Tag.openOption (optionAttributes title condition)).content)
      (.openOption (optionAttributes title condition)) := by
  obtain ⟨rest, hrest⟩ := exists_optionAttributes_eq title condition
  have htrim : trim (Tag.openOption (' ' :: (rest ++ ['"']))).content
      = 'o' :: 'p' :: 't' :: 'i' :: 'o' :: 'n' :: ' ' :: (rest ++ ['"']) := by
    rw [Tag.content, trim_cons rfl]
    exact congrArg _ (trimEnd_append_cons rfl ('p' :: 't' :: 'i' :: 'o' :: 'n' :: ' ' :: rest) [])
  rw [hrest, htrim]
  exact .openOption rfl

theorem Tag.InBrackets.content (h : Tag.InBrackets (trim cs) tag) (hr : Tag.Respells tag tag') :
    Tag.InBrackets (trim tag'.content) tag' := by
  cases hr with
  | openOption => exact .openOption_content _ _
  | same hne =>
    generalize trim cs = t at h
    cases h with
    | openOptions => exact .openOptions
    | closeOptions => exact .closeOptions
    | closeOption => exact .closeOption
    | bareOption => exact .bareOption
    | openOption hc => exact absurd rfl (hne _)

theorem Tag.InBrackets.doubled_content (h : Tag.InBrackets (trim cs) tag)
    (hr : Tag.Respells tag tag') (hx : x ∈ closers) :
    [x, x] <:+: tag'.content ↔ [x, x] <:+: cs := by
  have hoption : x ∉ ['o', 'p', 't', 'i', 'o', 'n'] := not_mem_of_all hx rfl
  rw [← doubled_trim (isBlank_of_mem_closers hx) cs]
  generalize trim cs = t at h
  cases hr with
  | @openOption attributes title condition hread =>
    cases h with
    | openOption hc =>
      calc [x, x] <:+: (Tag.openOption (optionAttributes title condition)).content
          ↔ [x, x] <:+: optionAttributes title condition := doubled_append_of_not_mem hoption
        _ ↔ [x, x] <:+: _ := doubled_optionAttributes_of_read hread hx
        _ ↔ [x, x] <:+: _ := (doubled_append_of_not_mem hoption).symm
  | same hne =>
    cases h with
    | openOptions => exact Iff.rfl
    | closeOptions => exact Iff.rfl
    | closeOption => exact Iff.rfl
    | bareOption => exact Iff.rfl
    | openOption hc => exact absurd rfl (hne _)

theorem Tag.InBrackets.getLast?_content (h : Tag.InBrackets cs tag) (hr : Tag.Respells tag tag')
    (hx : x ∈ closers) : tag'.content.getLast? ≠ some x := by
  cases hr with
  | @openOption attributes title condition hread =>
    obtain ⟨rest, hrest⟩ := exists_optionAttributes_eq title condition
    have hcontent : (Tag.openOption (' ' :: (rest ++ ['"']))).content
        = 'o' :: 'p' :: 't' :: 'i' :: 'o' :: 'n' :: ' ' :: rest ++ ['"'] := rfl
    rw [hrest, hcontent, List.getLast?_concat]
    exact fun hlast => ne_of_mem_closers hx (by decide) (Option.some.inj hlast)
  | same hne =>
    cases h with
    | openOption hc => exact absurd rfl (hne _)
    | _ => exact fun hlast => ne_of_mem_closers hx (by decide) (Option.some.inj hlast)

end

end SeededText
