import SeededText.Expansion.Basic
import SeededText.Proofs.Template.Derivation

/-!
# What is known of templates that were read

The nodes that a text is read as are not arbitrary.  Every variable in them is named by an
identifier, since a tag with anything else between its braces is no tag.  And a text in which no mark
begins has one way to be read: as itself.
-/

namespace SeededText

open Text

/-! ## 1. Nodes and the pieces they come from -/

/-- The lists of nodes that stand right inside a node. -/
def Node.branches : Node → List (List Node)
  | .literal _ | .variable _ => []
  | .conditional _ thenBranch elseBranch => thenBranch :: elseBranch.toList
  | .optionGroup _ options => options.map Choice.body

/-- A stretch of the pieces derives the nodes. -/
def DerivedIn (ps : List Piece) (nodes : List Node) : Prop :=
  ∃ m n qs, qs <:+: ps ∧ Content m qs nodes n

/-- The tag that opens the option is one of the pieces, and a stretch of them derives its body. -/
structure Choice.DerivedFrom (ps : List Piece) (option : Choice Node) : Prop where
  opened : ∃ source attributes, .tag source (.openOption attributes) ∈ ps ∧
    readOptionAttributes attributes = .ok (option.title, option.condition)
  body : DerivedIn ps option.body

/-- The text or the tag that makes the node is one of the pieces, and stretches of them derive what
stands inside. -/
inductive Node.DerivedFrom (ps : List Piece) : Node → Prop where
  | literal {text : List Char} : .plain text ∈ ps → DerivedFrom ps (.literal (String.ofList text))
  | variable {source name : List Char} :
      .tag source (.variable name) ∈ ps → DerivedFrom ps (.variable (String.ofList name))
  | conditional {source condition : List Char} {thenBranch : List Node}
      {elseBranch : Option (List Node)} :
      .tag source (.openIf condition) ∈ ps → DerivedIn ps thenBranch →
        (∀ branch ∈ elseBranch, DerivedIn ps branch) →
          DerivedFrom ps (.conditional (String.ofList condition) thenBranch elseBranch)
  | optionGroup {index : Nat} {options : List (Choice Node)} :
      options ≠ [] → (∀ option ∈ options, option.DerivedFrom ps) →
        DerivedFrom ps (.optionGroup index options)

section

variable {ps qs : List Piece}

theorem DerivedIn.mono {nodes : List Node} (h : DerivedIn qs nodes) (hpart : qs <:+: ps) :
    DerivedIn ps nodes := by
  obtain ⟨m, n, us, hus, hcontent⟩ := h
  exact ⟨m, n, us, hus.trans hpart, hcontent⟩

theorem Choice.DerivedFrom.mono {option : Choice Node} (h : option.DerivedFrom qs)
    (hpart : qs <:+: ps) : option.DerivedFrom ps := by
  obtain ⟨⟨source, attributes, hmem, hread⟩, hbody⟩ := h
  exact ⟨⟨source, attributes, hpart.subset hmem, hread⟩, hbody.mono hpart⟩

theorem Node.DerivedFrom.mono {node : Node} (h : node.DerivedFrom qs) (hpart : qs <:+: ps) :
    node.DerivedFrom ps := by
  cases h with
  | literal hmem => exact .literal (hpart.subset hmem)
  | «variable» hmem => exact .variable (hpart.subset hmem)
  | conditional hmem hthen helse =>
    exact .conditional (hpart.subset hmem) (hthen.mono hpart)
      fun branch hbranch => (helse branch hbranch).mono hpart
  | optionGroup hne hoptions =>
    exact .optionGroup hne fun option hoption => (hoptions option hoption).mono hpart

/-- What stands right inside such a node is derived from the pieces. -/
theorem Node.DerivedFrom.branches {node : Node} (h : node.DerivedFrom ps) :
    ∀ branch ∈ node.branches, DerivedIn ps branch := by
  intro branch hbranch
  cases h with
  | literal | «variable» => cases hbranch
  | conditional _ hthen helse =>
    rcases List.mem_cons.1 hbranch with rfl | hbranch
    · exact hthen
    · exact helse branch (Option.mem_toList.1 hbranch)
  | optionGroup _ hoptions =>
    obtain ⟨option, hoption, rfl⟩ := List.mem_map.1 hbranch
    exact (hoptions option hoption).body

end

theorem infix_behind {α : Type} {before rest : List α} {a : α} : rest <:+: before ++ a :: rest :=
  ((List.suffix_cons a rest).trans (List.suffix_append before _)).isInfix

mutual

/-- Every node that is visited among derived nodes comes from the pieces. -/
theorem Content.derivedFrom {m n : Nat} {ps : List Piece} {nodes : List Node} {node : Node} :
    Content m ps nodes n → node ∈ Node.visitsList nodes → node.DerivedFrom ps
  | .nil _, hmem => nomatch hmem
  | .text text h, hmem => by
    rcases List.mem_append.1 hmem with hmem | hmem
    · rw [List.mem_singleton.1 hmem]
      exact .literal List.mem_cons_self
    · exact (h.derivedFrom hmem).mono (List.suffix_cons _ _).isInfix
  | .reference source name h, hmem => by
    rcases List.mem_append.1 hmem with hmem | hmem
    · rw [List.mem_singleton.1 hmem]
      exact .variable List.mem_cons_self
    · exact (h.derivedFrom hmem).mono (List.suffix_cons _ _).isInfix
  | @Content.ifThen m k n qs ps thenBranch nodes source condition close hthen h, hmem => by
    have hinside : qs <:+: .tag source (.openIf condition) :: qs ++ .tag close .closeIf :: ps :=
      ⟨[_], _ :: ps, rfl⟩
    simp only [Node.visitsList, Node.visits, List.mem_append, List.mem_cons] at hmem
    rcases hmem with (rfl | hmem) | hmem
    · exact .conditional List.mem_cons_self ⟨m, k, qs, hinside, hthen⟩ nofun
    · exact (hthen.derivedFrom hmem).mono hinside
    · exact (h.derivedFrom hmem).mono infix_behind
  | @Content.ifElse m k l n qs us ps thenBranch elseBranch nodes source condition turn close hthen
      helse h, hmem => by
    have hfront : .tag source (.openIf condition) :: qs ++ .tag turn .turnElse :: us <:+:
        .tag source (.openIf condition) :: qs ++ .tag turn .turnElse :: us
          ++ .tag close .closeIf :: ps := (List.prefix_append _ _).isInfix
    have hinside := List.IsInfix.trans ⟨[_], _ :: us, rfl⟩ hfront
    have hturn := infix_behind.trans hfront
    simp only [Node.visitsList, Node.visits, List.mem_append, List.mem_cons] at hmem
    rcases hmem with (rfl | hmem | hmem) | hmem
    · refine .conditional List.mem_cons_self ⟨m, k, qs, hinside, hthen⟩ fun branch hbranch => ?_
      cases hbranch
      exact ⟨k, l, us, hturn, helse⟩
    · exact (hthen.derivedFrom hmem).mono hinside
    · exact (helse.derivedFrom hmem).mono hturn
    · exact (h.derivedFrom hmem).mono infix_behind
  | @Content.group m k n qs ps options nodes source close hoptions hne h, hmem => by
    have hinside : qs <:+: .tag source .openOptions :: qs ++ .tag close .closeOptions :: ps :=
      ⟨[_], _ :: ps, rfl⟩
    simp only [Node.visitsList, Node.visits, List.mem_append, List.mem_cons] at hmem
    rcases hmem with (rfl | hmem) | hmem
    · exact .optionGroup hne fun option hoption => (hoptions.opened hoption).mono hinside
    · exact (hoptions.derivedFrom hmem).mono hinside
    · exact (h.derivedFrom hmem).mono infix_behind

theorem Choices.derivedFrom {m n : Nat} {ps : List Piece} {options : List (Choice Node)}
    {node : Node} :
    Choices m ps options n → node ∈ Node.visitsChoices options → node.DerivedFrom ps
  | .nil _, hmem => nomatch hmem
  | .gap _ h, hmem => (h.derivedFrom hmem).mono (List.suffix_cons _ _).isInfix
  | @Choices.option m k n qs ps title condition body options attributes source close _ hbody h,
      hmem => by
    rcases List.mem_append.1 hmem with hmem | hmem
    · exact (hbody.derivedFrom hmem).mono ⟨[_], _ :: ps, rfl⟩
    · exact (h.derivedFrom hmem).mono infix_behind

/-- Every option that is derived comes from the pieces. -/
theorem Choices.opened {m n : Nat} {ps : List Piece} {options : List (Choice Node)}
    {option : Choice Node} :
    Choices m ps options n → option ∈ options → option.DerivedFrom ps
  | .nil _, hmem => nomatch hmem
  | .gap _ h, hmem => (h.opened hmem).mono (List.suffix_cons _ _).isInfix
  | @Choices.option m k n qs ps title condition body options attributes source close hread hbody h,
      hmem => by
    rcases List.mem_cons.1 hmem with rfl | hmem
    · exact ⟨⟨source, attributes, List.mem_cons_self, hread⟩, m, k, qs, ⟨[_], _ :: ps, rfl⟩, hbody⟩
    · exact (h.opened hmem).mono infix_behind

end

/-! ## 2. Pieces and the text they come from -/

/-- Plain text stands in the text, and a tag is what its marks are closed around. -/
inductive Piece.LexedFrom (cs : List Char) : Piece → Prop where
  | plain {text : List Char} : text ≠ [] → text <:+: cs → LexedFrom cs (.plain text)
  | braces {source content : List Char} {tag : Tag} :
      ¬ ['\x7d', '\x7d'] <:+: content → Tag.InBraces (trim content) tag →
        LexedFrom cs (.tag source tag)
  | brackets {source content : List Char} {tag : Tag} :
      ¬ [']', ']'] <:+: content → Tag.InBrackets (trim content) tag → LexedFrom cs (.tag source tag)

theorem Piece.LexedFrom.mono {cs ds : List Char} {p : Piece} (h : p.LexedFrom ds)
    (hpart : ds <:+: cs) : p.LexedFrom cs := by
  cases h with
  | plain hne htext => exact .plain hne (htext.trans hpart)
  | braces hnot htag => exact .braces hnot htag
  | brackets hnot htag => exact .brackets hnot htag

/-- The first closing mark stands behind what it closes and not in it. -/
theorem not_doubled_of_firstAt {x : Char} {cs content after : List Char}
    (h : FirstAt [x, x] cs content after) : ¬ [x, x] <:+: content :=
  fun hdouble => (firstAt_doubled_iff.1 h).2 (hdouble.trans ⟨[], [x], rfl⟩)

theorem Lexes.lexedFrom {cs : List Char} {ps : List Piece} {p : Piece} (h : Lexes cs ps)
    (hmem : p ∈ ps) : p.LexedFrom cs := by
  induction h with
  | nil => cases hmem
  | @plain text after ps hne _ _ _ ih =>
    rcases List.mem_cons.1 hmem with rfl | hmem
    · exact .plain hne ⟨[], after, rfl⟩
    · exact (ih hmem).mono (List.suffix_append text after).isInfix
  | @braces cs content after tag ps hfirst htag _ ih =>
    rcases List.mem_cons.1 hmem with rfl | hmem
    · exact .braces (not_doubled_of_firstAt hfirst) htag
    · refine (ih hmem).mono ?_
      rw [hfirst.split]
      exact (List.suffix_append (_ :: _ :: (content ++ _)) after).isInfix
  | @brackets cs content after tag ps hfirst htag _ ih =>
    rcases List.mem_cons.1 hmem with rfl | hmem
    · exact .brackets (not_doubled_of_firstAt hfirst) htag
    · refine (ih hmem).mono ?_
      rw [hfirst.split]
      exact (List.suffix_append (_ :: _ :: (content ++ _)) after).isInfix

/-- A tag that refers to a variable holds an identifier that is no word of the grammar. -/
theorem Piece.LexedFrom.identifier {cs source name : List Char}
    (h : Piece.LexedFrom cs (.tag source (.variable name))) :
    isIdentifier name = true ∧ name ≠ ['e', 'l', 's', 'e'] := by
  cases h with
  | braces _ htag =>
    generalize trim _ = content at htag
    cases htag with
    | name hid helse => exact ⟨hid, helse⟩
  | brackets _ htag =>
    generalize trim _ = content at htag
    cases htag

/-- The variables of a template that was read are named by identifiers. -/
theorem identifier_of_read {text : String} {template : Template}
    (hread : Template.read text = .ok template) {name : String}
    (hmem : .variable name ∈ template.visits) : isIdentifier name.toList = true := by
  obtain ⟨ps, n, hlexes, hcontent⟩ := readTemplate_eq_ok_iff.1 (read_eq_ok.1 hread)
  cases hcontent.derivedFrom hmem with
  | «variable» htag =>
    rw [String.toList_ofList]
    exact (hlexes.lexedFrom htag).identifier.1

/-! ## 3. Text without marks -/

theorem staysPlain_of_no_mark {cs : List Char} (hbraces : ¬ ['\x7b', '\x7b'] <:+: cs)
    (hbrackets : ¬ ['[', '['] <:+: cs) : StaysPlain cs [] := by
  induction cs with
  | nil => exact .nil []
  | cons c cs ih =>
    have hmark : startsMark (c :: cs) = false := by
      rw [Bool.eq_false_iff]
      intro hmark
      rcases startsMark_eq_true hmark with ⟨rest, hcs⟩ | ⟨rest, hcs⟩
      · exact hbraces ⟨[], rest, hcs.symm⟩
      · exact hbrackets ⟨[], rest, hcs.symm⟩
    refine .char (by simpa using hmark) (ih ?_ ?_)
    · exact fun hinfix => hbraces (List.infix_cons hinfix)
    · exact fun hinfix => hbrackets (List.infix_cons hinfix)

/-- The nodes of a text that stands for itself. -/
def plainNodes (text : String) : List Node :=
  if text = "" then [] else [.literal text]

theorem read_of_no_mark {text : String} (h : hasMark text = false) :
    Template.read text = .ok ⟨plainNodes text⟩ := by
  rw [read_eq_ok, readTemplate_eq_ok_iff]
  unfold plainNodes
  split
  · next hempty =>
    rw [hempty]
    exact ⟨[], 0, .nil, .nil 0⟩
  · next hne =>
    have hcs : text.toList ≠ [] := fun hnil => hne (String.toList_inj.1 hnil)
    simp only [hasMark, Bool.or_eq_false_iff, holds_eq_isSome_cut?, Option.isSome_eq_false_iff,
      Option.isNone_iff_eq_none, cut?_eq_none_iff] at h
    have hlexes := Lexes.plain hcs (staysPlain_of_no_mark h.1 h.2) rfl .nil
    rw [List.append_nil] at hlexes
    have hcontent := Content.text text.toList (.nil 0)
    rw [String.ofList_toList] at hcontent
    exact ⟨_, 0, hlexes, hcontent⟩

end SeededText
