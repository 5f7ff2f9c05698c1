import SeededText.Proofs.Expansion.Bounds
import SeededText.Proofs.Template.Printing
import SeededText.Proofs.Template.Shape

/-!
# Flat templates

A template is flat when it is made of literals and references only: nothing in it is chosen.  Then
its text and its nodes correspond place by place.  `Tightens` goes through both and takes the blanks
out of the references, and nothing else: whatever stands in the text as a literal, stray marks
included, stays as it is.

That a flat template's text tightens to what the template is printed as is `tightens_of_read`.  The
scan is not asked again for this: the grammar says what a reference tag was read from, and a literal
is the plain text between two tags.
-/

namespace SeededText

open Text

/-! ## 1. Flat nodes -/

/-- A literal or a reference. -/
def Node.isFlat : Node → Bool
  | .literal _ | .variable _ => true
  | .conditional .. | .optionGroup .. => false

/-- Nothing in the template is chosen. -/
def Template.isFlat (template : Template) : Bool :=
  template.nodes.all Node.isFlat

section

variable {node : Node} {nodes : List Node}

theorem isFlat_of_isLiteral (h : node.isLiteral = true) : node.isFlat = true := by
  cases node with
  | literal => rfl
  | «variable» | conditional | optionGroup => cases h

theorem isFlat_of_isStatic {template : Template} (h : template.isStatic = true) :
    template.isFlat = true :=
  List.all_eq_true.2 fun node hmem => isFlat_of_isLiteral (List.all_eq_true.1 h node hmem)

theorem visits_of_isFlat (h : node.isFlat = true) : node.visits = [node] := by
  cases node with
  | literal | «variable» => rfl
  | conditional | optionGroup => cases h

/-- Nothing stands inside flat nodes. -/
theorem visitsList_of_isFlat (h : nodes.all Node.isFlat = true) : Node.visitsList nodes = nodes := by
  induction nodes with
  | nil => rfl
  | cons node nodes ih =>
    rw [List.all_cons, Bool.and_eq_true] at h
    rw [Node.visitsList, visits_of_isFlat h.1, ih h.2]
    rfl

theorem references_cons (node : Node) (nodes : List Node) :
    references (node :: nodes) = references [node] ++ references nodes := by
  rw [← references_append, List.singleton_append]

theorem mem_references_of_isFlat {name : String} (h : nodes.all Node.isFlat = true) :
    name ∈ references nodes ↔ .variable name ∈ nodes := by
  rw [mem_references, visitsList_of_isFlat h]

theorem isStatic_plainNodes (text : String) : Template.isStatic ⟨plainNodes text⟩ = true := by
  unfold plainNodes
  split <;> rfl

/-- Static templates refer to nothing. -/
theorem references_of_isStatic {template : Template} (h : template.isStatic = true) :
    references template.nodes = [] := by
  rw [List.eq_nil_iff_forall_not_mem]
  intro name hmem
  rw [mem_references_of_isFlat (isFlat_of_isStatic h)] at hmem
  have hliteral := List.all_eq_true.1 h _ hmem
  cases hliteral

end

/-! ## 2. Texts without the blanks in references -/

/-- Both texts write the nodes, the first one perhaps with blanks just inside the braces of a
reference, the second one without. -/
inductive Tightens : List Node → (loose tight : List Char) → Prop where
  | nil : Tightens [] [] []
  | literal {nodes : List Node} {loose tight : List Char} (text : String) :
      Tightens nodes loose tight →
        Tightens (.literal text :: nodes) (text.toList ++ loose) (text.toList ++ tight)
  | reference {nodes : List Node} {loose tight lead tail : List Char} (name : String) :
      allBlank lead = true → allBlank tail = true → Tightens nodes loose tight →
        Tightens (.variable name :: nodes)
          ('\x7b' :: '\x7b' :: (lead ++ name.toList ++ tail) ++ '\x7d' :: '\x7d' :: loose)
          ('\x7b' :: '\x7b' :: name.toList ++ '\x7d' :: '\x7d' :: tight)

section

variable {cs loose tight source name : List Char} {ps : List Piece} {nodes : List Node} {m n : Nat}

/-- A tag that refers to a name was read from the name and blanks around it. -/
theorem Lexes.of_reference (h : Lexes cs (.tag source (.variable name) :: ps)) :
    ∃ lead tail after, allBlank lead = true ∧ allBlank tail = true ∧ Lexes after ps ∧
      cs = '\x7b' :: '\x7b' :: (lead ++ name ++ tail) ++ '\x7d' :: '\x7d' :: after := by
  cases h with
  | @braces cs content after _ _ hfirst htag hlexes =>
    obtain ⟨lead, tail, hlead, htail, hcontent⟩ := exists_trim_append content
    have hname : trim content = name := by
      generalize trim content = trimmed at htag
      cases htag
      rfl
    refine ⟨lead, tail, after, hlead, htail, hlexes, ?_⟩
    rw [← hname, ← hcontent, hfirst.split]
    simp
  | brackets hfirst htag hlexes =>
    generalize trim _ = trimmed at htag
    cases htag

/-- The text that flat nodes were derived from tightens to what they are written as. -/
theorem Content.tightens (h : Content m ps nodes n) (hlexes : Lexes cs ps)
    (hflat : nodes.all Node.isFlat = true) : Tightens nodes cs (Node.spellingList nodes) := by
  induction nodes generalizing cs ps m with
  | nil =>
    cases h
    cases hlexes
    exact .nil
  | cons node nodes ih =>
    rw [List.all_cons, Bool.and_eq_true] at hflat
    cases h with
    | text text h =>
      cases hlexes with
      | plain _ _ _ hlexes =>
        have htext := Tightens.literal (String.ofList text) (ih h hlexes hflat.2)
        rw [String.toList_ofList] at htext
        simpa [Node.spellingList, Node.spelling] using htext
    | reference source name h =>
      obtain ⟨lead, tail, after, hlead, htail, hlexes, hcs⟩ := hlexes.of_reference
      have hreference := Tightens.reference (String.ofList name) hlead htail (ih h hlexes hflat.2)
      rw [String.toList_ofList, ← hcs] at hreference
      simpa [Node.spellingList, Node.spelling, Tag.spelling, Tag.content] using hreference
    | ifThen | ifElse | group => cases hflat.1

/-- What a template that was read is written as is read as the same template, and if the template is
flat, its text tightens to it. -/
theorem tightens_of_read {text : String} {template : Template}
    (hread : Template.read text = .ok template) (hflat : template.isFlat = true) :
    Tightens template.nodes text.toList template.print.toList ∧
      Template.read template.print = .ok template := by
  obtain ⟨ps, n, hlexes, hcontent⟩ := readTemplate_eq_ok_iff.1 (read_eq_ok.1 hread)
  obtain ⟨qs, hrespells, hcontent', hsources⟩ := hcontent.respell
  have hprint : template.print.toList = sources qs := by
    rw [Template.print, String.toList_ofList, hsources]
  refine ⟨?_, read_eq_ok.2 (readTemplate_eq_ok_iff.2 ⟨qs, n, ?_, hcontent'⟩)⟩
  · rw [Template.print, String.toList_ofList]
    exact hcontent.tightens hlexes hflat
  · rw [hprint]
    exact (hlexes.respell hrespells).1

/-- Without references there is nothing to tighten. -/
theorem Tightens.eq_of_isStatic (h : Tightens nodes loose tight)
    (hstatic : nodes.all Node.isLiteral = true) : tight = loose := by
  induction h with
  | nil => rfl
  | literal text _ ih =>
    rw [List.all_cons, Bool.and_eq_true] at hstatic
    rw [ih hstatic.2]
  | reference => cases hstatic

/-- A static template is printed as the text that it was read from. -/
theorem print_of_isStatic {text : String} {template : Template}
    (hread : Template.read text = .ok template) (hstatic : template.isStatic = true) :
    template.print = text := by
  have htightens := (tightens_of_read hread (isFlat_of_isStatic hstatic)).1
  exact String.toList_inj.1 (htightens.eq_of_isStatic hstatic)

end

end SeededText
