import Mathlib.Control.Monad.Basic
import SeededText.Proofs.Template.Derivation
import SeededText.Proofs.Template.Spelling

/-!
# Printing and reading again

A mark in plain text opens no tag for a reason that may lie far behind it: its closing mark stands
after other tags, or nowhere.  Printing writes these tags anew, so the reason must survive that.
It does, because a decision that reaches past the plain text depends on two things only: which
closing marks the rest of the text holds (`SameClosers`), and the opening mark that the rest begins
with (`SameStart`).  `StaysPlain.congr` is that argument, and `Lexes.respell` carries it through a
whole text.
-/

namespace SeededText

open Text

/-! ## 1. What plain text depends on -/

/-- The characters of which two open a tag. -/
def openers : List Char :=
  ['\x7b', '[']

/-- The texts hold the same closing marks. -/
def SameClosers (cs cs' : List Char) : Prop :=
  ∀ x ∈ closers, [x, x] <:+: cs ↔ [x, x] <:+: cs'

/-- The texts are empty or begin with the same opening mark. -/
inductive SameStart : List Char → List Char → Prop where
  | nil : SameStart [] []
  | mark {x : Char} (rest rest' : List Char) :
      x ∈ openers → SameStart (x :: x :: rest) (x :: x :: rest')

theorem isBlank_of_mem_openers {x : Char} (hx : x ∈ openers) : isBlank x = false := by
  have hall : openers.all (fun c => !isBlank c) = true := rfl
  simpa using List.all_eq_true.1 hall x hx

theorem ne_of_mem_openers {o x : Char} (ho : o ∈ openers) (hx : x ∈ closers) : o ≠ x :=
  ne_of_mem_closers hx (not_mem_of_all ho rfl)

theorem SameStart.symm {cs cs' : List Char} (h : SameStart cs cs') : SameStart cs' cs := by
  cases h with
  | nil => exact .nil
  | mark rest rest' hx => exact .mark rest' rest hx

theorem SameStart.head?_ne {cs cs' : List Char} {x : Char} (h : SameStart cs cs')
    (hx : x ∈ closers) : cs.head? ≠ some x := by
  cases h with
  | nil => exact fun hhead => nomatch hhead
  | mark rest rest' ho => exact fun hhead => ne_of_mem_openers ho hx (Option.some.inj hhead)

section

variable {text after after' content rest : List Char} {x : Char}

theorem SameClosers.append (hs : SameStart after after') (hc : SameClosers after after')
    (text : List Char) : SameClosers (text ++ after) (text ++ after') := by
  intro x hx
  rw [doubled_append fun _ => hs.head?_ne hx, doubled_append fun _ => hs.symm.head?_ne hx,
    hc x hx]

/-- Nothing of a text that has no such character reaches past the character. -/
theorem exists_append_of_not_mem {front rest w v : List Char} (h : front ++ rest = w ++ x :: v)
    (hx : x ∉ front) : ∃ more, w = front ++ more := by
  rcases List.append_eq_append_iff.1 h with ⟨more, hw, -⟩ | ⟨more, hfront, hmore⟩
  · exact ⟨more, hw⟩
  · cases more with
    | nil => exact ⟨[], by simpa using hfront.symm⟩
    | cons y more =>
      rw [List.cons_append, List.cons.injEq] at hmore
      rw [hfront, ← hmore.1] at hx
      simp at hx

/-- What follows a mark between double braces does not decide whether there is a tag. -/
theorem Tag.InBraces.of_mark {tag : Tag} (hx : x ∈ openers) (rest' : List Char)
    (h : Tag.InBraces (trim (text ++ x :: rest)) tag) :
    ∃ tag', Tag.InBraces (trim (text ++ x :: rest')) tag' := by
  rw [trim_append_cons (isBlank_of_mem_openers hx)] at h ⊢
  have hmem : x ∈ trimStart text ++ x :: trimEnd rest := by simp
  have hif : x ∉ ['#', 'i', 'f'] := not_mem_of_all hx rfl
  generalize hcontent : trimStart text ++ x :: trimEnd rest = content at h hmem
  cases h with
  | bareIf => exact absurd hmem hif
  | turnElse =>
    have helse : x ∉ ['e', 'l', 's', 'e'] := not_mem_of_all hx rfl
    exact absurd hmem helse
  | closeIf =>
    have hclose : x ∉ ['/', 'i', 'f'] := not_mem_of_all hx rfl
    exact absurd hmem hclose
  | name hid =>
    have hname := isNameChar_of_isIdentifier hid x hmem
    have hall : openers.all (fun c => !isNameChar c) = true := rfl
    have hnot := List.all_eq_true.1 hall x hx
    simp [hname] at hnot
  | @openIf c more hc =>
    -- the word and the blank after it stand in front of the mark, whatever comes behind
    have hne : x ≠ c := ne_of_isBlank (isBlank_of_mem_openers hx) hc
    have hfront : x ∉ ['#', 'i', 'f', c] := by simpa [hne] using hif
    have hsplit : ['#', 'i', 'f', c] ++ more = trimStart text ++ x :: trimEnd rest := hcontent.symm
    obtain ⟨w, hw⟩ := exists_append_of_not_mem hsplit hfront
    rw [hw]
    exact ⟨_, .openIf hc⟩

/-- What follows a mark between double brackets does not decide it either. -/
theorem Tag.InBrackets.of_mark {tag : Tag} (hx : x ∈ openers) (rest' : List Char)
    (h : Tag.InBrackets (trim (text ++ x :: rest)) tag) :
    ∃ tag', Tag.InBrackets (trim (text ++ x :: rest')) tag' := by
  rw [trim_append_cons (isBlank_of_mem_openers hx)] at h ⊢
  have hmem : x ∈ trimStart text ++ x :: trimEnd rest := by simp
  have hoptions : x ∉ ['/', 'o', 'p', 't', 'i', 'o', 'n', 's'] := not_mem_of_all hx rfl
  have hoption : x ∉ ['o', 'p', 't', 'i', 'o', 'n'] := not_mem_of_all hx rfl
  generalize hcontent : trimStart text ++ x :: trimEnd rest = content at h hmem
  cases h with
  | openOptions => exact absurd (List.mem_cons_of_mem _ hmem) hoptions
  | closeOptions => exact absurd hmem hoptions
  | bareOption => exact absurd hmem hoption
  | closeOption =>
    have hclose : x ∉ ['/', 'o', 'p', 't', 'i', 'o', 'n'] := not_mem_of_all hx rfl
    exact absurd hmem hclose
  | @openOption c more hc =>
    have hne : x ≠ c := ne_of_isBlank (isBlank_of_mem_openers hx) hc
    have hfront : x ∉ ['o', 'p', 't', 'i', 'o', 'n', c] := by simpa [hne] using hoption
    have hsplit : ['o', 'p', 't', 'i', 'o', 'n', c] ++ more
        = trimStart text ++ x :: trimEnd rest := hcontent.symm
    obtain ⟨w, hw⟩ := exists_append_of_not_mem hsplit hfront
    rw [hw]
    exact ⟨_, .openOption hc⟩

theorem OptionLike.of_mark (hx : x ∈ openers) (rest' : List Char)
    (h : OptionLike (text ++ x :: rest)) : OptionLike (text ++ x :: rest') := by
  have hstart : ∀ more, trimStart (text ++ x :: more) = trimStart text ++ x :: more :=
    trimStart_append_cons (isBlank_of_mem_openers hx) text
  have hoption : x ∉ ['o', 'p', 't', 'i', 'o', 'n'] := not_mem_of_all hx rfl
  cases h with
  | @options more hcs =>
    have hfront : x ∉ ['o', 'p', 't', 'i', 'o', 'n', 's'] := not_mem_of_all hx rfl
    have hsplit : ['o', 'p', 't', 'i', 'o', 'n', 's'] ++ more = trimStart text ++ x :: rest := by
      rw [← hstart]
      exact hcs.symm
    obtain ⟨w, hw⟩ := exists_append_of_not_mem hsplit hfront
    exact .options (by rw [hstart, hw]; rfl)
  | @option more c hc hcs =>
    have hne : x ≠ c := ne_of_isBlank (isBlank_of_mem_openers hx) hc
    have hfront : x ∉ ['o', 'p', 't', 'i', 'o', 'n', c] := by simpa [hne] using hoption
    have hsplit : ['o', 'p', 't', 'i', 'o', 'n', c] ++ more = trimStart text ++ x :: rest := by
      rw [← hstart]
      exact hcs.symm
    obtain ⟨w, hw⟩ := exists_append_of_not_mem hsplit hfront
    exact .option hc (by rw [hstart, hw]; rfl)
  | @slashOption more hcs =>
    have hfront : x ∉ ['/', 'o', 'p', 't', 'i', 'o', 'n'] := not_mem_of_all hx rfl
    have hsplit : ['/', 'o', 'p', 't', 'i', 'o', 'n'] ++ more = trimStart text ++ x :: rest := by
      rw [← hstart]
      exact hcs.symm
    obtain ⟨w, hw⟩ := exists_append_of_not_mem hsplit hfront
    exact .slashOption (by rw [hstart, hw]; rfl)

theorem OptionLike.congr (hs : SameStart after after') (h : OptionLike (text ++ after)) :
    OptionLike (text ++ after') := by
  cases hs with
  | nil => exact h
  | mark rest rest' hx => exact h.of_mark hx _

/-- The first closing mark stays where it is, or it stands behind the plain text and stays there. -/
theorem FirstAt.congr (hx : x ∈ closers) (hs : SameStart after after')
    (hc : SameClosers after after') (h : FirstAt [x, x] (text ++ after) content rest) :
    (∃ rest', FirstAt [x, x] (text ++ after') content rest') ∨
      ∃ o ∈ openers, ∃ more more' rest', content = text ++ o :: more ∧
        FirstAt [x, x] (text ++ after') (text ++ o :: more') rest' := by
  obtain ⟨hsplit, hnot⟩ := firstAt_doubled_iff.1 h
  rw [List.append_assoc, List.append_eq_append_iff] at hsplit
  rcases hsplit with ⟨more, rfl, hafter⟩ | ⟨more, rfl, hafter⟩
  · -- the closing mark stands behind the plain text
    right
    have hdouble : [x, x] <:+: after := ⟨more, rest, by rw [hafter]; simp⟩
    obtain ⟨before', rest', hfirst'⟩ := exists_firstAt ((hc x hx).1 hdouble)
    obtain ⟨hsplit', hnot'⟩ := firstAt_doubled_iff.1 hfirst'
    cases hs with
    | nil => simp at hafter
    | @mark o r r' ho =>
      have hox : o ≠ x := ne_of_mem_openers ho hx
      cases more with
      | nil => exact absurd (List.cons.inj hafter).1 hox
      | cons d more =>
        cases before' with
        | nil => exact absurd (List.cons.inj hsplit').1 hox
        | cons d' before' =>
          rw [List.cons_append, List.cons.injEq] at hafter
          rw [List.cons_append, List.cons_append, List.cons.injEq] at hsplit'
          obtain ⟨rfl, -⟩ := hafter
          obtain ⟨rfl, hsplit'⟩ := hsplit'
          refine ⟨o, ho, more, before', rest', rfl, firstAt_doubled_iff.2 ⟨?_, ?_⟩⟩
          · rw [hsplit']
            simp
          · rw [List.append_assoc, List.cons_append, doubled_append_cons hox]
            rw [List.append_assoc, List.cons_append, doubled_append_cons hox] at hnot
            rw [List.cons_append, doubled_cons_of_ne hox] at hnot'
            rintro (htext | hbefore)
            · exact hnot (.inl htext)
            · exact hnot' hbefore
  · -- it stands in the plain text, for it cannot begin there and go on in an opening mark
    left
    match more with
    | [] => exact absurd (congrArg List.head? hafter).symm (hs.head?_ne hx)
    | [d] => exact absurd (congrArg List.head? (List.cons.inj hafter).2).symm (hs.head?_ne hx)
    | d :: e :: more =>
      simp only [List.cons_append, List.nil_append, List.cons.injEq] at hafter
      obtain ⟨rfl, rfl, -⟩ := hafter
      exact ⟨more ++ after', firstAt_doubled_iff.2 ⟨by simp, hnot⟩⟩

theorem startsMark_cons_cons (c d : Char) (cs cs' : List Char) :
    startsMark (c :: d :: cs) = startsMark (c :: d :: cs') := by
  have hmark : ∀ es es', startsMark (c :: d :: es) = true → startsMark (c :: d :: es') = true := by
    intro es es' h
    rcases startsMark_eq_true h with ⟨rest, hes⟩ | ⟨rest, hes⟩ <;>
    · simp only [List.cons.injEq] at hes
      obtain ⟨rfl, rfl, -⟩ := hes
      rfl
  exact Bool.eq_iff_iff.2 ⟨hmark cs cs', hmark cs' cs⟩

theorem startsMark_congr (hs : SameStart after after') (c : Char) (text : List Char) :
    startsMark (c :: (text ++ after)) = startsMark (c :: (text ++ after')) := by
  cases text with
  | cons d text => exact startsMark_cons_cons c d _ _
  | nil =>
    cases hs with
    | nil => rfl
    | mark rest rest' hx => exact startsMark_cons_cons c _ _ _

/-- Plain text stays plain when what follows begins and closes as before. -/
theorem StaysPlain.congr (hs : SameStart after after') (hc : SameClosers after after')
    (h : StaysPlain text after) : StaysPlain text after' := by
  have hbrace : '\x7d' ∈ closers := by decide
  have hbracket : ']' ∈ closers := by decide
  induction h with
  | nil => exact .nil _
  | @char c text after hmark _ ih =>
    rw [startsMark_congr hs] at hmark
    exact .char hmark (ih hs hc)
  | braces hfirst htag _ ih =>
    rcases FirstAt.congr hbrace hs hc hfirst with ⟨rest', hfirst'⟩ |
      ⟨o, ho, more, more', rest', rfl, hfirst'⟩
    · exact .braces hfirst' htag (ih hs hc)
    · -- the closing mark stands behind a tag, so what it closes differs behind that tag's mark
      refine .braces hfirst' (fun tag ht => ?_) (ih hs hc)
      obtain ⟨tag', ht'⟩ := ht.of_mark ho more
      exact htag tag' ht'
  | brackets hfirst htag _ ih =>
    rcases FirstAt.congr hbracket hs hc hfirst with ⟨rest', hfirst'⟩ |
      ⟨o, ho, more, more', rest', rfl, hfirst'⟩
    · exact .brackets hfirst' htag (ih hs hc)
    · refine .brackets hfirst' (fun tag ht => ?_) (ih hs hc)
      obtain ⟨tag', ht'⟩ := ht.of_mark ho more
      exact htag tag' ht'
  | @openBrackets text after hopen hlike _ ih =>
    refine .openBrackets (fun hdouble => hopen ?_) (fun hlike' => hlike ?_) (ih hs hc)
    · exact (hc.append hs text ']' hbracket).2 hdouble
    · exact hlike'.congr hs.symm

end

/-! ## 2. Tags written anew -/

/-- The second pieces are the first ones as printing writes them: tags anew, and no blanks between
options. -/
inductive Respells : List Piece → List Piece → Prop where
  | nil : Respells [] []
  | plain {text : List Char} {ps qs : List Piece} :
      Respells ps qs → Respells (.plain text :: ps) (.plain text :: qs)
  | gap {text : List Char} {ps qs : List Piece} :
      allBlank text = true → Respells ps qs → Respells (.plain text :: ps) qs
  | tag {source : List Char} {tag tag' : Tag} {ps qs : List Piece} :
      Tag.Respells tag tag' → Respells ps qs →
        Respells (.tag source tag :: ps) (.tag tag'.spelling tag' :: qs)

section

variable {cs content content' after after' : List Char} {ps qs us vs : List Piece}

theorem Respells.append (h : Respells ps qs) (h' : Respells us vs) :
    Respells (ps ++ us) (qs ++ vs) := by
  induction h with
  | nil => exact h'
  | plain _ ih => exact .plain ih
  | gap hblank _ ih => exact .gap hblank ih
  | tag htag _ ih => exact .tag htag ih

theorem startsPlain_of_respells (hr : Respells ps qs) (hps : startsPlain ps = false) :
    startsPlain qs = false := by
  cases hr with
  | nil => rfl
  | plain => cases hps
  | gap => cases hps
  | tag => rfl

/-- A text that begins with a tag still begins with its mark. -/
theorem Lexes.sameStart (h : Lexes cs ps) (hr : Respells ps qs) (hps : startsPlain ps = false) :
    SameStart cs (sources qs) := by
  cases h with
  | nil => cases hr; exact .nil
  | plain => cases hps
  | braces hfirst htag _ =>
    cases hr with
    | tag htags _ =>
      rw [htag.eq_of_respells htags, sources, List.flatMap_cons, Piece.source, htag.spelling]
      exact .mark _ _ (by decide)
  | brackets hfirst htag _ =>
    cases hr with
    | tag htags _ =>
      rw [sources, List.flatMap_cons, Piece.source, (htag.content htags).spelling]
      exact .mark _ _ (by decide)

/-- Closing marks stand in the content of a tag, at its end, and behind it. -/
theorem SameClosers.mark {o c : Char} (ho : o ∈ openers)
    (hcontent : ∀ x ∈ closers, [x, x] <:+: content ↔ [x, x] <:+: content')
    (hafter : SameClosers after after') :
    SameClosers (o :: o :: (content ++ [c, c] ++ after)) (o :: o :: (content' ++ [c, c] ++ after'))
    := by
  intro x hx
  have hox : o ≠ x := ne_of_mem_openers ho hx
  by_cases hc : c = x
  · subst hc
    exact iff_of_true ⟨o :: o :: content, after, by simp⟩ ⟨o :: o :: content', after', by simp⟩
  · have hsplit : ∀ content after : List Char,
        [x, x] <:+: o :: o :: (content ++ [c, c] ++ after)
          ↔ [x, x] <:+: content ∨ [x, x] <:+: after := fun content after => by
      rw [doubled_cons_of_ne hox, doubled_cons_of_ne hox, List.append_assoc, List.cons_append,
        doubled_append_cons hc, List.cons_append, doubled_cons_of_ne hc, List.nil_append]
    rw [hsplit, hsplit, hcontent x hx, hafter x hx]

/-- A new content with the same closing marks in it closes its tag no earlier than the old one. -/
theorem FirstAt.respell {x : Char} (h : FirstAt [x, x] cs content after)
    (hlast : content'.getLast? ≠ some x) (hdoubled : [x, x] <:+: content' ↔ [x, x] <:+: content)
    (after' : List Char) :
    FirstAt [x, x] (content' ++ [x, x] ++ after') content' after' := by
  obtain ⟨-, hnot⟩ := firstAt_doubled_iff.1 h
  refine firstAt_doubled_iff.2 ⟨rfl, ?_⟩
  rw [doubled_concat hlast, hdoubled]
  exact fun hdouble => hnot (hdouble.trans (List.infix_append' [] content [x]))

/-- A text that is written anew is made of the pieces written anew. -/
theorem Lexes.respell (h : Lexes cs ps) (hr : Respells ps qs) :
    Lexes (sources qs) qs ∧ SameClosers cs (sources qs) := by
  induction h generalizing qs with
  | nil => cases hr; exact ⟨.nil, fun _ _ => Iff.rfl⟩
  | @plain text after ps hne hplain hps hlexes ih =>
    cases hr with
    | plain hr =>
      obtain ⟨hlexes', hcloses⟩ := ih hr
      have hstart := hlexes.sameStart hr hps
      exact ⟨.plain hne (hplain.congr hstart hcloses) (startsPlain_of_respells hr hps) hlexes',
        hcloses.append hstart text⟩
    | gap hblank hr =>
      -- blanks are no part of a closing mark, so leaving them out loses none
      obtain ⟨hlexes', hcloses⟩ := ih hr
      refine ⟨hlexes', fun x hx => ?_⟩
      rw [doubled_blank_append (isBlank_of_mem_closers hx) hblank]
      exact hcloses x hx
  | @braces cs content after tag ps hfirst htag _ ih =>
    cases hr with
    | @tag _ _ _ _ qs htags hr =>
      obtain ⟨hlexes', hcloses⟩ := ih hr
      obtain ⟨rfl, -⟩ := firstAt_doubled_iff.1 hfirst
      have hx : '\x7d' ∈ closers := by decide
      have hfirst' := FirstAt.respell hfirst (htag.getLast?_content hx)
        (htag.doubled_content hx) (sources qs)
      have hsources : sources (.tag tag.spelling tag :: qs)
          = '\x7b' :: '\x7b' :: (tag.content ++ ['\x7d', '\x7d'] ++ sources qs) := by
        rw [sources, List.flatMap_cons, Piece.source, htag.spelling]
        rfl
      rw [htag.eq_of_respells htags, hsources]
      refine ⟨?_, SameClosers.mark (by decide) (fun x hx => (htag.doubled_content hx).symm) hcloses⟩
      rw [htag.spelling]
      exact .braces hfirst' htag.content hlexes'
  | @brackets cs content after tag ps hfirst htag _ ih =>
    cases hr with
    | @tag _ _ tag' _ qs htags hr =>
      obtain ⟨hlexes', hcloses⟩ := ih hr
      obtain ⟨rfl, -⟩ := firstAt_doubled_iff.1 hfirst
      have hx : ']' ∈ closers := by decide
      have hfirst' := FirstAt.respell hfirst (htag.getLast?_content htags hx)
        (htag.doubled_content htags hx) (sources qs)
      have hsources : sources (.tag tag'.spelling tag' :: qs)
          = '[' :: '[' :: (tag'.content ++ [']', ']'] ++ sources qs) := by
        rw [sources, List.flatMap_cons, Piece.source, (htag.content htags).spelling]
        rfl
      rw [hsources]
      refine ⟨?_, SameClosers.mark (by decide)
        (fun x hx => (htag.doubled_content htags hx).symm) hcloses⟩
      rw [(htag.content htags).spelling]
      exact .brackets hfirst' (htag.content htags) hlexes'

end

/-! ## 3. Derivations written anew -/

mutual

/-- Pieces that derive nodes derive them written anew, and then they are what is printed. -/
theorem Content.respell {m n : Nat} {ps : List Piece} {nodes : List Node} :
    Content m ps nodes n →
      ∃ qs, Respells ps qs ∧ Content m qs nodes n ∧ sources qs = Node.spellingList nodes
  | .nil m => ⟨[], .nil, .nil m, rfl⟩
  | .text text h => by
    obtain ⟨qs, hr, hc, hsources⟩ := h.respell
    refine ⟨_, hr.plain, hc.text text, ?_⟩
    simp [Node.spellingList, Node.spelling, Piece.source, hsources]
  | .reference source name h => by
    obtain ⟨qs, hr, hc, hsources⟩ := h.respell
    refine ⟨_, hr.tag (.same nofun), hc.reference _ name, ?_⟩
    simp [Node.spellingList, Node.spelling, Piece.source, hsources]
  | .ifThen source condition close hthen h => by
    obtain ⟨us, hr₁, hc₁, hsources₁⟩ := hthen.respell
    obtain ⟨qs, hr, hc, hsources⟩ := h.respell
    have hopen : Tag.Respells (.openIf condition) (.openIf condition) := .same nofun
    have hclose : Tag.Respells .closeIf .closeIf := .same nofun
    refine ⟨_, (hr₁.tag hopen).append (hr.tag hclose), .ifThen _ condition _ hc₁ hc, ?_⟩
    simp [Node.spellingList, Node.spelling, Piece.source, hsources₁, hsources]
  | .ifElse source condition turn close hthen helse h => by
    obtain ⟨us, hr₁, hc₁, hsources₁⟩ := hthen.respell
    obtain ⟨vs, hr₂, hc₂, hsources₂⟩ := helse.respell
    obtain ⟨qs, hr, hc, hsources⟩ := h.respell
    have hopen : Tag.Respells (.openIf condition) (.openIf condition) := .same nofun
    have hturn : Tag.Respells .turnElse .turnElse := .same nofun
    have hclose : Tag.Respells .closeIf .closeIf := .same nofun
    refine ⟨_, ((hr₁.tag hopen).append (hr₂.tag hturn)).append (hr.tag hclose),
      .ifElse _ condition _ _ hc₁ hc₂ hc, ?_⟩
    simp [Node.spellingList, Node.spelling, Piece.source, hsources₁, hsources₂, hsources]
  | .group source close hoptions hne h => by
    obtain ⟨us, hr₁, hc₁, hsources₁⟩ := hoptions.respell
    obtain ⟨qs, hr, hc, hsources⟩ := h.respell
    have hopen : Tag.Respells .openOptions .openOptions := .same nofun
    have hclose : Tag.Respells .closeOptions .closeOptions := .same nofun
    refine ⟨_, (hr₁.tag hopen).append (hr.tag hclose), .group _ _ hc₁ hne hc, ?_⟩
    simp [Node.spellingList, Node.spelling, Piece.source, hsources₁, hsources]

/-- Options likewise, with nothing between them. -/
theorem Choices.respell {m n : Nat} {ps : List Piece} {options : List (Choice Node)} :
    Choices m ps options n →
      ∃ qs, Respells ps qs ∧ Choices m qs options n ∧ sources qs = Node.spellingChoices options
  | .nil m => ⟨[], .nil, .nil m, rfl⟩
  | .gap hblank h => by
    obtain ⟨qs, hr, hc, hsources⟩ := h.respell
    exact ⟨qs, hr.gap hblank, hc, hsources⟩
  | .option source close hattributes hbody h => by
    obtain ⟨us, hr₁, hc₁, hsources₁⟩ := hbody.respell
    obtain ⟨qs, hr, hc, hsources⟩ := h.respell
    have hvalues := (values_of_readOptionAttributes hattributes).1
    have hread := readOptionAttributes_optionAttributes fun value hv => (hvalues value hv).1
    have hclose : Tag.Respells .closeOption .closeOption := .same nofun
    refine ⟨_, (hr₁.tag (.openOption hattributes)).append (hr.tag hclose),
      .option _ _ hread hc₁ hc, ?_⟩
    simp [Node.spellingChoices, Piece.source, hsources₁, hsources]

end

/-- A template that was read is read again from what it is printed as. -/
theorem read_print {text : String} {template : Template}
    (h : Template.read text = .ok template) : Template.read template.print = .ok template := by
  rw [read_eq_ok, readTemplate_eq_ok_iff] at h ⊢
  obtain ⟨ps, n, hlexes, hc⟩ := h
  obtain ⟨qs, hr, hc', hsources⟩ := hc.respell
  refine ⟨qs, n, ?_, hc'⟩
  rw [Template.print, String.toList_ofList, ← hsources]
  exact (hlexes.respell hr).1

/-- Blanks in tags, attributes in the other order, a brace in front of a tag and an open bracket. -/
theorem read_print_spaced :
    ∃ template,
      Template.read ("\x7b\x7b #if  a > 1 \x7d\x7d \x7b\x7b\x7b\x7bx\x7d\x7d [[ options ]] \n"
        ++ "[[option condition=\"a\"  title=\"T\"]] b [[/option]] [[ /options]] [[x "
        ++ "\x7b\x7b/if\x7d\x7d") = .ok template ∧
      Template.read template.print = .ok template := by
  refine ⟨⟨[.conditional "a > 1" [.literal " \x7b\x7b", .variable "x", .literal " ",
    .optionGroup 0 [⟨"T", some "a", [.literal " b "]⟩], .literal " [[x "] none]⟩,
    ?hread, read_print ?hread⟩
  decide +kernel

end SeededText
