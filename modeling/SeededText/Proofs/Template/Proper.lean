import Mathlib.Data.List.Chain
import SeededText.Proofs.Template.Attributes
import SeededText.Proofs.Template.Shape

/-!
# Templates in proper form

A template is a type with more inhabitants than reading has results.  Nothing in the type keeps a
literal from being empty or from standing next to another one, a name from being no name, a group
from having no options, or a value from holding the quote that would end it.  Reading gives none of
these: what it gives is proper.

Plain text may be gathered from several places, from marks that opened no tag and from what is left
at the end, and tags that give no node of their own stand between nodes.  The grammar has settled
both: pieces are as long as they can be (`Separated`), and every list of nodes, however deep, is
derived from a stretch of them (`Node.DerivedFrom`).
-/

namespace SeededText

open Text

/-! ## 1. Proper form -/

/-- What a node that was read from `source` is known to hold. -/
def Node.Proper (source : String) : Node → Prop
  | .literal text => text ≠ "" ∧ text.toList <:+: source.toList
  | .variable name => isIdentifier name.toList = true ∧ name ≠ "else"
  | .conditional condition _ _ =>
    trim condition.toList = condition.toList ∧ ¬ ['\x7d', '\x7d'] <:+: condition.toList
  | .optionGroup _ options =>
    options ≠ [] ∧ ∀ option ∈ options, ∀ value ∈ optionValues option.title option.condition,
      '"' ∉ value ∧ ¬ [']', ']'] <:+: value

/-- No two literals stand next to one another. -/
def LiteralsApart (nodes : List Node) : Prop :=
  nodes.IsChain fun a b => ¬ (a.isLiteral = true ∧ b.isLiteral = true)

/-- The lists of nodes in the template, at every depth. -/
def Template.lists (template : Template) : List (List Node) :=
  template.nodes :: template.visits.flatMap Node.branches

/-- Every node of the template is proper, and the literals of every list are apart. -/
structure Template.Proper (source : String) (template : Template) : Prop where
  nodes : ∀ node ∈ template.visits, node.Proper source
  apart : ∀ nodes ∈ template.lists, LiteralsApart nodes

/-! ## 2. Tags hold what is proper -/

section

variable {cs source : List Char}

/-- The condition of a tag is trimmed and does not close the tag. -/
theorem Piece.LexedFrom.condition {condition : List Char}
    (h : Piece.LexedFrom cs (.tag source (.openIf condition))) :
    trim condition = condition ∧ ¬ ['\x7d', '\x7d'] <:+: condition := by
  cases h with
  | @braces _ content _ hnot htag =>
    rw [← doubled_trim rfl content] at hnot
    generalize trim content = trimmed at htag hnot
    cases htag with
    | bareIf => exact ⟨rfl, fun hdouble => nomatch mem_of_doubled hdouble⟩
    | @openIf c rest hc =>
      refine ⟨trim_trim _, fun hdouble => hnot ?_⟩
      rw [doubled_trim rfl] at hdouble
      exact hdouble.trans (List.suffix_append ['#', 'i', 'f'] (c :: rest)).isInfix
  | brackets _ htag =>
    generalize trim _ = trimmed at htag
    cases htag

/-- The attributes of an option do not close its tag. -/
theorem Piece.LexedFrom.not_doubled {attributes : List Char}
    (h : Piece.LexedFrom cs (.tag source (.openOption attributes))) :
    ¬ [']', ']'] <:+: attributes := by
  cases h with
  | braces _ htag =>
    generalize trim _ = trimmed at htag
    cases htag
  | @brackets _ content _ hnot htag =>
    rw [← doubled_trim rfl content] at hnot
    generalize trim content = trimmed at htag hnot
    cases htag with
    | @openOption c rest hc =>
      exact fun hdouble => hnot
        (hdouble.trans (List.suffix_append ['o', 'p', 't', 'i', 'o', 'n'] (c :: rest)).isInfix)

end

/-- A node that comes from the pieces of a text is proper. -/
theorem Node.DerivedFrom.proper {source : String} {ps : List Piece} {node : Node}
    (h : node.DerivedFrom ps) (hlexes : Lexes source.toList ps) : node.Proper source := by
  cases h with
  | @literal text hmem =>
    cases hlexes.lexedFrom hmem with
    | plain hne hpart =>
      rw [Node.Proper, String.toList_ofList]
      exact ⟨fun hempty => hne (String.ofList_eq_empty_iff.1 hempty), hpart⟩
  | @«variable» _ name hmem =>
    obtain ⟨hid, helse⟩ := (hlexes.lexedFrom hmem).identifier
    rw [Node.Proper, String.toList_ofList]
    exact ⟨hid, fun hname => helse (String.ofList_injective hname)⟩
  | conditional hmem _ _ =>
    rw [Node.Proper, String.toList_ofList]
    exact (hlexes.lexedFrom hmem).condition
  | optionGroup hne hoptions =>
    refine ⟨hne, fun option hoption value hvalue => ?_⟩
    obtain ⟨tag, attributes, hmem, hread⟩ := (hoptions option hoption).opened
    obtain ⟨hquote, hpart⟩ := (values_of_readOptionAttributes hread).1 value hvalue
    exact ⟨hquote, fun hdouble =>
      (hlexes.lexedFrom hmem).not_doubled (hdouble.trans hpart)⟩

/-! ## 3. Literals are apart -/

theorem LiteralsApart.cons {node : Node} {nodes : List Node} (h : LiteralsApart nodes)
    (hnode : node.isLiteral = false) : LiteralsApart (node :: nodes) :=
  List.isChain_cons.2 ⟨fun _ _ hboth => by simp [hnode] at hboth, h⟩

theorem Separated.of_infix {ps qs : List Piece} (h : Separated ps) (hpart : qs <:+: ps) :
    Separated qs := by
  obtain ⟨before, after, rfl⟩ := hpart
  exact h.left.of_append

/-- Pieces that do not begin with plain text derive nodes that do not begin with a literal. -/
theorem Content.isLiteral_head? {m n : Nat} {ps : List Piece} {nodes : List Node}
    (h : Content m ps nodes n) (hps : startsPlain ps = false) :
    ∀ node ∈ nodes.head?, node.isLiteral = false := by
  intro node hnode
  cases h with
  | nil => cases hnode
  | text => cases hps
  | reference | ifThen | ifElse | group => cases hnode; rfl

/-- Nodes derived from pieces that are apart have their literals apart. -/
theorem Content.literalsApart {m n : Nat} {ps : List Piece} {nodes : List Node} :
    Content m ps nodes n → Separated ps → LiteralsApart nodes
  | .nil _, _ => .nil
  | .text cs h, hsep => by
    have hhead := h.isLiteral_head? (hsep [] cs _ rfl).2
    refine List.isChain_cons.2 ⟨fun node hnode hboth => ?_, h.literalsApart hsep.tail⟩
    rw [hhead node hnode] at hboth
    cases hboth.2
  | .reference _ _ h, hsep => (h.literalsApart hsep.tail).cons rfl
  | .ifThen _ _ _ _ h, hsep => (h.literalsApart (hsep.of_infix infix_behind)).cons rfl
  | .ifElse _ _ _ _ _ _ h, hsep => (h.literalsApart (hsep.of_infix infix_behind)).cons rfl
  | .group _ _ _ _ h, hsep => (h.literalsApart (hsep.of_infix infix_behind)).cons rfl

theorem DerivedIn.literalsApart {ps : List Piece} {nodes : List Node} (h : DerivedIn ps nodes)
    (hsep : Separated ps) : LiteralsApart nodes := by
  obtain ⟨m, n, qs, hpart, hcontent⟩ := h
  exact hcontent.literalsApart (hsep.of_infix hpart)

/-- A template that was read is proper, whatever it was read from. -/
theorem proper_of_read {source : String} {template : Template}
    (hread : Template.read source = .ok template) : template.Proper source := by
  obtain ⟨ps, n, hlexes, hcontent⟩ := readTemplate_eq_ok_iff.1 (read_eq_ok.1 hread)
  refine ⟨fun node hmem => (hcontent.derivedFrom hmem).proper hlexes, fun nodes hmem => ?_⟩
  rcases List.mem_cons.1 hmem with rfl | hmem
  · exact hcontent.literalsApart hlexes.separated
  · obtain ⟨node, hvisit, hbranch⟩ := List.mem_flatMap.1 hmem
    exact ((hcontent.derivedFrom hvisit).branches nodes hbranch).literalsApart hlexes.separated

/-- Marks that open no tag between two words, a conditional with both branches around a group, and a
brace and a bracket in the values of an option. -/
def patchwork : String :=
  "one [[two]] \x7b\x7b 3 \x7d\x7d\x7b\x7b#if  a > 1 \x7d\x7d\x7b\x7b x \x7d\x7d]]\x7b\x7belse\x7d\x7d"
    ++ "[[options]] [[option condition=\"b\" title=\"\x7d\x7d ]\"]][[ [[/option]] [[/options]]"
    ++ "\x7b\x7b/if\x7d\x7d four"

theorem proper_of_read_patchwork :
    ∃ template, Template.read patchwork = .ok template ∧ template.lists.length = 4 ∧
      template.Proper patchwork := by
  have hread : Template.read patchwork = .ok ⟨[.literal "one [[two]] \x7b\x7b 3 \x7d\x7d",
      .conditional "a > 1" [.variable "x", .literal "]]"]
        (some [.optionGroup 0 [⟨"\x7d\x7d ]", some "b", [.literal "[[ "]⟩]]),
      .literal " four"]⟩ := by
    refine read_eq_ok.2 ?_
    unfold patchwork
    rewrite [String.toList_append, String.toList_append]
    decide +kernel
  exact ⟨_, hread, rfl, proper_of_read hread⟩

end SeededText
