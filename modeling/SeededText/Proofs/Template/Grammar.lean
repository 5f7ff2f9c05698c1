import SeededText.Proofs.Text.Search
import SeededText.Template.Attributes
import SeededText.Template.Piece

/-!
# The grammar of template texts

Two levels, each said without a machine.  `Lexes` says which pieces a text is made of: tags, and
between them plain text, in which every mark was found to open no tag.  `Content` says which
pieces derive which nodes, by a context-free grammar: plain text and variables, conditionals around
contents, and option groups around options, which are contents with attributes.

Neither level fails.  A text with a tag that is never closed is made of no pieces, and pieces that
do not nest derive nothing.  That reading a template accepts exactly what is derived, and gives the
nodes of the derivation, is `read_eq_ok_iff` in `SeededText.Proofs.Template.Derivation`.

Option groups are numbered by the order of their opening tags, so a derivation goes from the number
that the next group gets to the number after all its groups.
-/

namespace SeededText

open Text

/-! ## 1. Tags -/

/-- What stands between double braces, blanks at its ends aside, and the tag that it is. -/
inductive Tag.InBraces : List Char → Tag → Prop where
  | bareIf : InBraces ['#', 'i', 'f'] (.openIf [])
  | openIf {c : Char} {rest : List Char} :
      isBlank c = true → InBraces ('#' :: 'i' :: 'f' :: c :: rest) (.openIf (trim (c :: rest)))
  | turnElse : InBraces ['e', 'l', 's', 'e'] .turnElse
  | closeIf : InBraces ['/', 'i', 'f'] .closeIf
  | name {name : List Char} :
      isIdentifier name = true → name ≠ ['e', 'l', 's', 'e'] → InBraces name (.variable name)

/-- What stands between double brackets, blanks at its ends aside, and the tag that it is. -/
inductive Tag.InBrackets : List Char → Tag → Prop where
  | openOptions : InBrackets ['o', 'p', 't', 'i', 'o', 'n', 's'] .openOptions
  | closeOptions : InBrackets ['/', 'o', 'p', 't', 'i', 'o', 'n', 's'] .closeOptions
  | closeOption : InBrackets ['/', 'o', 'p', 't', 'i', 'o', 'n'] .closeOption
  | bareOption : InBrackets ['o', 'p', 't', 'i', 'o', 'n'] .bareOption
  | openOption {c : Char} {rest : List Char} :
      isBlank c = true →
        InBrackets ('o' :: 'p' :: 't' :: 'i' :: 'o' :: 'n' :: c :: rest) (.openOption (c :: rest))

/-- The text begins as an option tag would, whether or not the tag is closed. -/
inductive OptionLike : List Char → Prop where
  | options {cs rest : List Char} :
      trimStart cs = 'o' :: 'p' :: 't' :: 'i' :: 'o' :: 'n' :: 's' :: rest → OptionLike cs
  | option {cs rest : List Char} {c : Char} : isBlank c = true →
      trimStart cs = 'o' :: 'p' :: 't' :: 'i' :: 'o' :: 'n' :: c :: rest → OptionLike cs
  | slashOption {cs rest : List Char} :
      trimStart cs = '/' :: 'o' :: 'p' :: 't' :: 'i' :: 'o' :: 'n' :: rest → OptionLike cs

theorem ofBraces?_eq_some_iff {content : List Char} {tag : Tag} :
    Tag.ofBraces? content = some tag ↔ Tag.InBraces content tag := by
  constructor
  · intro h
    unfold Tag.ofBraces? at h
    split at h
    · next rest =>
      split at h
      · next hrest =>
        cases h
        cases rest with
        | nil => exact .bareIf
        | cons c rest => exact .openIf (by simpa [startsBlank] using hrest)
      · cases h
    · split at h
      · next helse => cases h; rw [helse]; exact .turnElse
      · next helse =>
        split at h
        · next hend => cases h; rw [hend]; exact .closeIf
        · split at h
          · next hid => cases h; exact .name hid helse
          · cases h
  · intro h
    cases h with
    | bareIf => rfl
    | openIf hc => simp [Tag.ofBraces?, startsBlank, hc]
    | turnElse => rfl
    | closeIf => rfl
    | name hid helse =>
      unfold Tag.ofBraces?
      split
      · next rest => simp [isIdentifier, isLetter] at hid
      · rw [if_neg helse, if_neg, if_pos hid]
        intro hend
        rw [hend] at hid
        simp [isIdentifier, isLetter] at hid

theorem ofBrackets?_eq_some_iff {content : List Char} {tag : Tag} :
    Tag.ofBrackets? content = some tag ↔ Tag.InBrackets content tag := by
  constructor
  · intro h
    unfold Tag.ofBrackets? at h
    split at h
    · next rest =>
      split at h
      · next hs => cases h; rw [hs]; exact .openOptions
      · split at h
        · next hnil =>
          rw [List.isEmpty_iff] at hnil
          cases h
          rw [hnil]
          exact .bareOption
        · split at h
          · next hblank =>
            cases h
            cases rest with
            | nil => cases hblank
            | cons c rest => exact .openOption hblank
          · cases h
    · next rest =>
      split at h
      · next hs => cases h; rw [hs]; exact .closeOptions
      · split at h
        · next hnil =>
          rw [List.isEmpty_iff] at hnil
          cases h
          rw [hnil]
          exact .closeOption
        · cases h
    · cases h
  · intro h
    cases h with
    | openOptions => rfl
    | closeOptions => rfl
    | closeOption => rfl
    | bareOption => rfl
    | @openOption c rest hc =>
      have hs : ¬ (c :: rest = ['s']) := by
        intro heq
        rw [List.cons.injEq] at heq
        rw [heq.1] at hc
        cases hc
      simp [Tag.ofBrackets?, startsBlank, hc, hs]

theorem ofBraces?_eq_none_iff {content : List Char} :
    Tag.ofBraces? content = none ↔ ∀ tag, ¬ Tag.InBraces content tag := by
  simp only [Option.eq_none_iff_forall_ne_some, ne_eq, ofBraces?_eq_some_iff]

theorem ofBrackets?_eq_none_iff {content : List Char} :
    Tag.ofBrackets? content = none ↔ ∀ tag, ¬ Tag.InBrackets content tag := by
  simp only [Option.eq_none_iff_forall_ne_some, ne_eq, ofBrackets?_eq_some_iff]

theorem looksLikeOption_iff (cs : List Char) : looksLikeOption cs = true ↔ OptionLike cs := by
  constructor
  · intro h
    unfold looksLikeOption at h
    split at h
    · next rest hcs =>
      cases rest with
      | nil => cases h
      | cons c rest =>
        rw [Bool.or_eq_true] at h
        rcases h with hc | hs
        · exact .option hc hcs
        · simp at hs
          rw [hs] at hcs
          exact .options hcs
    · next hcs => exact .slashOption hcs
    · cases h
  · intro h
    cases h with
    | options hcs => simp [looksLikeOption, hcs]
    | option hc hcs => simp [looksLikeOption, hcs, startsBlank, hc]
    | slashOption hcs => simp [looksLikeOption, hcs]

/-! ## 2. Pieces -/

/-- The text stays plain in front of `after`: no mark in it opens a tag, and none is at fault. -/
inductive StaysPlain : List Char → List Char → Prop where
  | nil (after : List Char) : StaysPlain [] after
  /-- a character at which no mark begins -/
  | char {c : Char} {text after : List Char} :
      startsMark (c :: (text ++ after)) = false → StaysPlain text after →
        StaysPlain (c :: text) after
  /-- double braces that are closed around no tag -/
  | braces {text after content rest : List Char} :
      FirstAt ['\x7d', '\x7d'] (text ++ after) content rest →
        (∀ tag, ¬ Tag.InBraces (trim content) tag) → StaysPlain text after →
          StaysPlain ('\x7b' :: '\x7b' :: text) after
  /-- double brackets that are closed around no tag -/
  | brackets {text after content rest : List Char} :
      FirstAt [']', ']'] (text ++ after) content rest →
        (∀ tag, ¬ Tag.InBrackets (trim content) tag) → StaysPlain text after →
          StaysPlain ('[' :: '[' :: text) after
  /-- double brackets that are never closed and do not look like an option tag -/
  | openBrackets {text after : List Char} :
      ¬ [']', ']'] <:+: text ++ after → ¬ OptionLike (text ++ after) → StaysPlain text after →
        StaysPlain ('[' :: '[' :: text) after

/-- The first piece is plain text. -/
def startsPlain : List Piece → Bool
  | .plain _ :: _ => true
  | _ => false

/-- The text is made of the pieces: tags, and between them plain text that is as long as it can
be. -/
inductive Lexes : List Char → List Piece → Prop where
  | nil : Lexes [] []
  | plain {text after : List Char} {ps : List Piece} :
      text ≠ [] → StaysPlain text after → startsPlain ps = false → Lexes after ps →
        Lexes (text ++ after) (.plain text :: ps)
  | braces {cs content after : List Char} {tag : Tag} {ps : List Piece} :
      FirstAt ['\x7d', '\x7d'] cs content after → Tag.InBraces (trim content) tag →
        Lexes after ps →
          Lexes ('\x7b' :: '\x7b' :: cs)
            (.tag ('\x7b' :: '\x7b' :: content ++ ['\x7d', '\x7d']) tag :: ps)
  | brackets {cs content after : List Char} {tag : Tag} {ps : List Piece} :
      FirstAt [']', ']'] cs content after → Tag.InBrackets (trim content) tag → Lexes after ps →
        Lexes ('[' :: '[' :: cs) (.tag ('[' :: '[' :: content ++ [']', ']']) tag :: ps)

/-! ## 3. Derivations -/

mutual

/-- The pieces derive the nodes; the groups among them get the numbers from `m` up to `n`. -/
inductive Content : (m : Nat) → List Piece → List Node → (n : Nat) → Prop where
  | nil (m : Nat) : Content m [] [] m
  | text {m n : Nat} {ps : List Piece} {nodes : List Node} (text : List Char) :
      Content m ps nodes n →
        Content m (.plain text :: ps) (.literal (String.ofList text) :: nodes) n
  | reference {m n : Nat} {ps : List Piece} {nodes : List Node} (source name : List Char) :
      Content m ps nodes n →
        Content m (.tag source (.variable name) :: ps) (.variable (String.ofList name) :: nodes) n
  /-- a conditional without an else-branch -/
  | ifThen {m k n : Nat} {qs ps : List Piece} {thenBranch nodes : List Node}
      (source condition close : List Char) :
      Content m qs thenBranch k → Content k ps nodes n →
        Content m (.tag source (.openIf condition) :: qs ++ .tag close .closeIf :: ps)
          (.conditional (String.ofList condition) thenBranch none :: nodes) n
  /-- a conditional with both branches -/
  | ifElse {m k l n : Nat} {qs us ps : List Piece} {thenBranch elseBranch nodes : List Node}
      (source condition turn close : List Char) :
      Content m qs thenBranch k → Content k us elseBranch l → Content l ps nodes n →
        Content m
          (.tag source (.openIf condition) :: qs ++ .tag turn .turnElse :: us
            ++ .tag close .closeIf :: ps)
          (.conditional (String.ofList condition) thenBranch (some elseBranch) :: nodes) n
  /-- a group, which has an option at least -/
  | group {m k n : Nat} {qs ps : List Piece} {options : List (Choice Node)} {nodes : List Node}
      (source close : List Char) :
      Choices (m + 1) qs options k → options ≠ [] → Content k ps nodes n →
        Content m (.tag source .openOptions :: qs ++ .tag close .closeOptions :: ps)
          (.optionGroup m options :: nodes) n

/-- The pieces derive the options of a group; only blank text stands between them. -/
inductive Choices : (m : Nat) → List Piece → List (Choice Node) → (n : Nat) → Prop where
  | nil (m : Nat) : Choices m [] [] m
  | gap {m n : Nat} {ps : List Piece} {options : List (Choice Node)} {text : List Char} :
      allBlank text = true → Choices m ps options n → Choices m (.plain text :: ps) options n
  | option {m k n : Nat} {qs ps : List Piece} {title : String} {condition : Option String}
      {body : List Node} {options : List (Choice Node)} {attributes : List Char}
      (source close : List Char) :
      readOptionAttributes attributes = .ok (title, condition) → Content m qs body k →
        Choices k ps options n →
          Choices m (.tag source (.openOption attributes) :: qs ++ .tag close .closeOption :: ps)
            (⟨title, condition, body⟩ :: options) n

end

mutual

/-- What two lists of pieces derive one after another, they derive together. -/
theorem Content.append {m k n : Nat} {ps us : List Piece} {nodes others : List Node} :
    Content m ps nodes k → Content k us others n → Content m (ps ++ us) (nodes ++ others) n
  | .nil _, h' => h'
  | .text text h, h' => .text text (h.append h')
  | .reference source name h, h' => .reference source name (h.append h')
  | .ifThen source condition close hthen h, h' => by
    simpa using Content.ifThen source condition close hthen (h.append h')
  | .ifElse source condition turn close hthen helse h, h' => by
    simpa using Content.ifElse source condition turn close hthen helse (h.append h')
  | .group source close hoptions hne h, h' => by
    simpa using Content.group source close hoptions hne (h.append h')

/-- Options and then others are options of one group. -/
theorem Choices.append {m k n : Nat} {ps us : List Piece} {options others : List (Choice Node)} :
    Choices m ps options k → Choices k us others n → Choices m (ps ++ us) (options ++ others) n
  | .nil _, h' => h'
  | .gap htext h, h' => .gap htext (h.append h')
  | .option source close hattributes hbody h, h' => by
    simpa using Choices.option source close hattributes hbody (h.append h')

end

end SeededText
