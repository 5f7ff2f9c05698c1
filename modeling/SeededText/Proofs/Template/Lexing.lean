import SeededText.Proofs.Template.Grammar
import SeededText.Template.Reader

/-!
# Pieces and the grammar

`pieces` takes plain text in whatever portions the scan finds it: runs without a mark, and marks
that open no tag.  The grammar's pieces have all neighbouring plain text in one.  `joinPlain` is
the step from the one to the other, and it changes nothing for the reader: `foldlM_joinPlain`.

The scan stops at a tag that is never closed.  Up to there, too, it finds what the grammar gives:
`LexesTo` says what the front of a text is made of and what follows it, `Stops` why nothing more is
taken, and `exists_lexesTo` that every text is taken so far.  Where no tag is left without its end
that is the whole text, so `lexes_iff` says that the scan finds exactly the pieces that the grammar
gives, and none where the grammar gives none.
-/

namespace SeededText

open Text

/-! ## 1. Joining plain text -/

/-- The pieces with plain text put in front. -/
def addPlain (text : List Char) : List Piece → List Piece
  | .plain more :: ps => .plain (text ++ more) :: ps
  | ps => .plain text :: ps

/-- The pieces with neighbouring plain text in one. -/
def joinPlain : List Piece → List Piece
  | [] => []
  | .plain text :: ps => addPlain text (joinPlain ps)
  | .tag source tag :: ps => .tag source tag :: joinPlain ps

/-- The characters of the pieces. -/
def sources (ps : List Piece) : List Char :=
  ps.flatMap Piece.source

@[simp]
theorem sources_nil : sources [] = [] :=
  rfl

@[simp]
theorem sources_cons (p : Piece) (ps : List Piece) : sources (p :: ps) = p.source ++ sources ps :=
  rfl

@[simp]
theorem sources_append (ps qs : List Piece) : sources (ps ++ qs) = sources ps ++ sources qs :=
  List.flatMap_append

theorem addPlain_append (text more : List Char) (ps : List Piece) :
    addPlain (text ++ more) ps = addPlain text (addPlain more ps) := by
  unfold addPlain
  cases ps with
  | nil => rfl
  | cons p ps => cases p <;> simp

theorem addPlain_of_startsPlain {ps : List Piece} (h : startsPlain ps = false)
    (text : List Char) : addPlain text ps = .plain text :: ps := by
  cases ps with
  | nil => rfl
  | cons p ps =>
    cases p with
    | plain => cases h
    | tag => rfl

theorem sources_addPlain (text : List Char) (ps : List Piece) :
    sources (addPlain text ps) = text ++ sources ps := by
  unfold addPlain
  split <;> simp [Piece.source]

theorem sources_joinPlain (ps : List Piece) : sources (joinPlain ps) = sources ps := by
  induction ps with
  | nil => rfl
  | cons p ps ih =>
    cases p with
    | plain text => rw [joinPlain, sources_addPlain, ih, sources_cons, Piece.source]
    | tag source tag => rw [joinPlain, sources_cons, sources_cons, ih]

/-- Plain text is taken in one portion as in two. -/
theorem take_plain_append (r : Reader) {text : List Char} (h : text ≠ []) (more : List Char) :
    r.take (.plain text) >>= (·.take (.plain more)) = r.take (.plain (text ++ more)) := by
  obtain ⟨c, cs, rfl⟩ := List.exists_cons_of_ne_nil h
  have hne : ((c :: cs).reverseAux r.pending).isEmpty = false := by simp [List.reverseAux_eq]
  simp only [Reader.take, Reader.append, bind, Except.bind, hne, Bool.false_eq_true, if_false]
  simp [List.reverseAux_eq]
  omega

theorem foldlM_addPlain (r : Reader) {text : List Char} (h : text ≠ []) (ps : List Piece) :
    (addPlain text ps).foldlM Reader.take r = (.plain text :: ps).foldlM Reader.take r := by
  cases ps with
  | nil => rfl
  | cons p ps =>
    cases p with
    | tag => rfl
    | plain more =>
      -- taking both portions is one step of the joined list and two of the other
      rw [addPlain, List.foldlM_cons, List.foldlM_cons, ← take_plain_append r h more]
      rw [bind_assoc]
      rfl

/-- The reader does not see in which portions plain text is cut. -/
theorem foldlM_joinPlain (r : Reader) {ps : List Piece} (h : ∀ p ∈ ps, p.source ≠ []) :
    (joinPlain ps).foldlM Reader.take r = ps.foldlM Reader.take r := by
  induction ps generalizing r with
  | nil => rfl
  | cons p ps ih =>
    have ih := fun r => ih r fun q hq => h q (List.mem_cons_of_mem _ hq)
    cases p with
    | plain text =>
      have htext : text ≠ [] := h (.plain text) List.mem_cons_self
      rw [joinPlain, foldlM_addPlain r htext, List.foldlM_cons, List.foldlM_cons]
      exact congrArg _ (funext ih)
    | tag source tag =>
      rw [joinPlain, List.foldlM_cons, List.foldlM_cons]
      exact congrArg _ (funext ih)

/-! ## 2. One step of the scan -/

theorem pieces_of_piece {cs rest : List Char} {p : Piece} (h : scan cs = .piece p rest) :
    pieces cs = ⟨p :: (pieces rest).items, (pieces rest).fault⟩ := by
  rw [pieces]
  split
  · next hs => rw [h] at hs; cases hs
  · next hs => rw [h] at hs; cases hs
  · next hs => rw [h] at hs; cases hs; rfl

theorem pieces_of_fault {cs : List Char} {cause : TemplateCause} (h : scan cs = .fault cause) :
    pieces cs = ⟨[], some cause⟩ := by
  rw [pieces]
  split
  · next hs => rw [h] at hs; cases hs
  · next hs => rw [h] at hs; cases hs; rfl
  · next hs => rw [h] at hs; cases hs

@[simp]
theorem pieces_nil : pieces [] = ⟨[], none⟩ := by
  rw [pieces]
  rfl

/-- The scan takes something with every piece. -/
theorem source_ne_nil_of_mem_pieces {cs : List Char} {p : Piece} (h : p ∈ (pieces cs).items) :
    p.source ≠ [] := by
  fun_induction pieces cs with
  | case1 => cases h
  | case2 => cases h
  | case3 cs first rest hscan _ others ih =>
    rcases List.mem_cons.1 h with rfl | hrest
    · exact source_scan_ne_nil hscan
    · exact ih hrest

/-- The pieces of a text, with plain text in one, and the fault after them. -/
def joinedPieces (cs : List Char) : Pieces :=
  ⟨joinPlain (pieces cs).items, (pieces cs).fault⟩

/-- Plain text in front of what a text is made of. -/
def Pieces.addPlain (text : List Char) (p : Pieces) : Pieces :=
  ⟨SeededText.addPlain text p.items, p.fault⟩

/-- A tag in front of what a text is made of. -/
def Pieces.addTag (source : List Char) (tag : Tag) (p : Pieces) : Pieces :=
  ⟨.tag source tag :: p.items, p.fault⟩

theorem scan_cons {c : Char} {cs : List Char} (h : startsMark (c :: cs) = false) :
    scan (c :: cs) = .piece (.plain (c :: plainRun cs)) (cs.drop (plainRun cs).length) := by
  unfold scan
  split
  · next heq => cases heq
  · next heq => rw [heq] at h; cases h
  · next heq => rw [heq] at h; cases h
  · next heq => cases heq; rfl

/-- A character at which no mark begins stands in front of what the rest is made of. -/
theorem joinedPieces_cons {c : Char} {cs : List Char} (h : startsMark (c :: cs) = false) :
    joinedPieces (c :: cs) = (joinedPieces cs).addPlain [c] := by
  simp only [joinedPieces, Pieces.addPlain, pieces_of_piece (scan_cons h)]
  cases cs with
  | nil => simp [plainRun, joinPlain]
  | cons d ds =>
    -- the run of plain text ends here, or the rest of it is the rest's own first piece
    by_cases hd : startsMark (d :: ds) = true
    · simp [plainRun, hd, joinPlain]
    · rw [Bool.not_eq_true] at hd
      rw [pieces_of_piece (scan_cons hd)]
      simp [plainRun, hd, joinPlain, ← addPlain_append]

theorem joinedPieces_braces (cs : List Char) :
    joinedPieces ('\x7b' :: '\x7b' :: cs) =
      match cut? ['\x7d', '\x7d'] cs with
      | none => ⟨[], some .unterminatedVariable⟩
      | some (content, rest) =>
        match Tag.ofBraces? (trim content) with
        | some tag =>
          (joinedPieces rest).addTag ('\x7b' :: '\x7b' :: content ++ ['\x7d', '\x7d']) tag
        | none => (joinedPieces cs).addPlain ['\x7b', '\x7b'] := by
  have hscan : scan ('\x7b' :: '\x7b' :: cs) = scanBraces cs := rfl
  rw [scanBraces_eq] at hscan
  cases hcut : cut? ['\x7d', '\x7d'] cs with
  | none =>
    rw [hcut] at hscan
    simp [joinedPieces, pieces_of_fault hscan, joinPlain]
  | some parts =>
    obtain ⟨content, rest⟩ := parts
    rw [hcut] at hscan
    cases htag : Tag.ofBraces? (trim content) with
    | none =>
      simp only [htag] at hscan ⊢
      simp [joinedPieces, pieces_of_piece hscan, joinPlain, Pieces.addPlain]
    | some tag =>
      simp only [htag] at hscan ⊢
      simp [joinedPieces, pieces_of_piece hscan, joinPlain, Pieces.addTag]

theorem joinedPieces_brackets (cs : List Char) :
    joinedPieces ('[' :: '[' :: cs) =
      match cut? [']', ']'] cs with
      | none =>
        if looksLikeOption cs then ⟨[], some (.invalidOptionTag .missingClose)⟩
        else (joinedPieces cs).addPlain ['[', '[']
      | some (content, rest) =>
        match Tag.ofBrackets? (trim content) with
        | some tag => (joinedPieces rest).addTag ('[' :: '[' :: content ++ [']', ']']) tag
        | none => (joinedPieces cs).addPlain ['[', '['] := by
  have hscan : scan ('[' :: '[' :: cs) = scanBrackets cs := rfl
  rw [scanBrackets_eq] at hscan
  cases hcut : cut? [']', ']'] cs with
  | none =>
    rw [hcut] at hscan
    by_cases hlooks : looksLikeOption cs = true
    · rw [if_pos hlooks] at hscan
      simp [joinedPieces, pieces_of_fault hscan, joinPlain, hlooks]
    · rw [if_neg hlooks] at hscan
      simp [joinedPieces, pieces_of_piece hscan, joinPlain, Pieces.addPlain, hlooks]
  | some parts =>
    obtain ⟨content, rest⟩ := parts
    rw [hcut] at hscan
    cases htag : Tag.ofBrackets? (trim content) with
    | none =>
      simp only [htag] at hscan ⊢
      simp [joinedPieces, pieces_of_piece hscan, joinPlain, Pieces.addPlain]
    | some tag =>
      simp only [htag] at hscan ⊢
      simp [joinedPieces, pieces_of_piece hscan, joinPlain, Pieces.addTag]

/-! ## 3. A text and the pieces that it begins with -/

/-- The text begins with the pieces, and `rest` follows them. -/
inductive LexesTo : List Char → List Piece → List Char → Prop where
  | nil (rest : List Char) : LexesTo rest [] rest
  | plain {text after rest : List Char} {ps : List Piece} :
      text ≠ [] → StaysPlain text after → startsPlain ps = false → LexesTo after ps rest →
        LexesTo (text ++ after) (.plain text :: ps) rest
  | braces {cs content after rest : List Char} {tag : Tag} {ps : List Piece} :
      FirstAt ['\x7d', '\x7d'] cs content after → Tag.InBraces (trim content) tag →
        LexesTo after ps rest →
          LexesTo ('\x7b' :: '\x7b' :: cs)
            (.tag ('\x7b' :: '\x7b' :: content ++ ['\x7d', '\x7d']) tag :: ps) rest
  | brackets {cs content after rest : List Char} {tag : Tag} {ps : List Piece} :
      FirstAt [']', ']'] cs content after → Tag.InBrackets (trim content) tag →
        LexesTo after ps rest →
          LexesTo ('[' :: '[' :: cs) (.tag ('[' :: '[' :: content ++ [']', ']']) tag :: ps) rest

/-- No piece is taken from the text: it is at its end, or a tag begins that is never closed. -/
inductive Stops : List Char → Option TemplateCause → Prop where
  | done : Stops [] none
  | braces {cs : List Char} : ¬ ['\x7d', '\x7d'] <:+: cs →
      Stops ('\x7b' :: '\x7b' :: cs) (some .unterminatedVariable)
  | brackets {cs : List Char} : ¬ [']', ']'] <:+: cs → OptionLike cs →
      Stops ('[' :: '[' :: cs) (some (.invalidOptionTag .missingClose))

/-- Nothing follows the pieces of a whole text. -/
theorem lexesTo_nil_iff {cs : List Char} {ps : List Piece} : LexesTo cs ps [] ↔ Lexes cs ps := by
  constructor
  · intro h
    generalize hrest : ([] : List Char) = rest at h
    induction h with
    | nil => rw [← hrest]; exact .nil
    | plain hne hplain hps _ ih => exact .plain hne hplain hps (ih hrest)
    | braces hfirst htag _ ih => exact .braces hfirst htag (ih hrest)
    | brackets hfirst htag _ ih => exact .brackets hfirst htag (ih hrest)
  · intro h
    induction h with
    | nil => exact .nil []
    | plain hne hplain hps _ ih => exact .plain hne hplain hps ih
    | braces hfirst htag _ ih => exact .braces hfirst htag ih
    | brackets hfirst htag _ ih => exact .brackets hfirst htag ih

/-- The tag stands at the front of the text. -/
inductive BeginsWith : List Char → Tag → Prop where
  | braces {cs content after : List Char} {tag : Tag} :
      FirstAt ['\x7d', '\x7d'] cs content after → Tag.InBraces (trim content) tag →
        BeginsWith ('\x7b' :: '\x7b' :: cs) tag
  | brackets {cs content after : List Char} {tag : Tag} :
      FirstAt [']', ']'] cs content after → Tag.InBrackets (trim content) tag →
        BeginsWith ('[' :: '[' :: cs) tag

section

variable {cs rest : List Char} {ps qs : List Piece}

theorem BeginsWith.startsMark {tag : Tag} (h : BeginsWith cs tag) : startsMark cs = true := by
  cases h <;> rfl

theorem LexesTo.beginsWith {source : List Char} {tag : Tag}
    (h : LexesTo cs (.tag source tag :: ps) rest) : BeginsWith cs tag := by
  cases h with
  | braces hfirst htag => exact .braces hfirst htag
  | brackets hfirst htag => exact .brackets hfirst htag

/-- The pieces and what follows them make up the text. -/
theorem LexesTo.split (h : LexesTo cs ps rest) : cs = sources ps ++ rest := by
  induction h with
  | nil => rfl
  | plain _ _ _ _ ih => rw [ih]; simp [Piece.source]
  | braces hfirst _ _ ih | brackets hfirst _ _ ih => rw [hfirst.split, ih]; simp [Piece.source]

theorem LexesTo.drop (h : LexesTo cs ps rest) : cs.drop (sources ps).length = rest := by
  rw [h.split, List.drop_left]

/-- What the first pieces leave of the text is made of the others. -/
theorem LexesTo.of_append (h : LexesTo cs (ps ++ qs) rest) :
    ∃ mid, LexesTo cs ps mid ∧ LexesTo mid qs rest := by
  induction ps generalizing cs with
  | nil => exact ⟨cs, .nil cs, h⟩
  | cons p ps ih =>
    cases h with
    | plain hne hplain hps h =>
      obtain ⟨mid, hbefore, hafter⟩ := ih h
      refine ⟨mid, .plain hne hplain ?_ hbefore, hafter⟩
      cases ps with
      | nil => rfl
      | cons q ps => cases q <;> exact hps
    | braces hfirst htag h =>
      obtain ⟨mid, hbefore, hafter⟩ := ih h
      exact ⟨mid, .braces hfirst htag hbefore, hafter⟩
    | brackets hfirst htag h =>
      obtain ⟨mid, hbefore, hafter⟩ := ih h
      exact ⟨mid, .brackets hfirst htag hbefore, hafter⟩

end

/-! ## 4. The scan finds the grammar's pieces -/

theorem Pieces.addPlain_addPlain (text more : List Char) (p : Pieces) :
    (p.addPlain more).addPlain text = p.addPlain (text ++ more) := by
  simp [Pieces.addPlain, addPlain_append]

/-- What the scan finds of plain text in front of some more is joined to it. -/
theorem addPlain_joinedPieces {first text after : List Char}
    (h : text ≠ [] → joinedPieces (text ++ after) = (joinedPieces after).addPlain text) :
    (joinedPieces (text ++ after)).addPlain first
      = (joinedPieces after).addPlain (first ++ text) := by
  cases text with
  | nil => simp
  | cons c cs => rw [h (List.cons_ne_nil c cs), Pieces.addPlain_addPlain]

/-- Text that stays plain is plain for the scan. -/
theorem joinedPieces_of_staysPlain {text after : List Char} (h : StaysPlain text after) :
    text ≠ [] → joinedPieces (text ++ after) = (joinedPieces after).addPlain text := by
  induction h with
  | nil => exact fun hne => absurd rfl hne
  | char hc _ ih =>
    intro _
    rw [List.cons_append, joinedPieces_cons hc, addPlain_joinedPieces ih]
    rfl
  | @braces text after content rest hfirst htag _ ih =>
    intro _
    rw [List.cons_append, List.cons_append, joinedPieces_braces, cut?_eq_some_iff.2 hfirst]
    simp only [ofBraces?_eq_none_iff.2 htag]
    exact addPlain_joinedPieces ih
  | @brackets text after content rest hfirst htag _ ih =>
    intro _
    rw [List.cons_append, List.cons_append, joinedPieces_brackets, cut?_eq_some_iff.2 hfirst]
    simp only [ofBrackets?_eq_none_iff.2 htag]
    exact addPlain_joinedPieces ih
  | @openBrackets text after hopen hlooks _ ih =>
    intro _
    rw [List.cons_append, List.cons_append, joinedPieces_brackets, cut?_eq_none_iff.2 hopen]
    simp only [looksLikeOption_iff, hlooks, if_false]
    exact addPlain_joinedPieces ih

/-- The scan takes the pieces that a text begins with and goes on with what follows them, unless that
is more plain text. -/
theorem joinedPieces_of_lexesTo {cs rest : List Char} {ps : List Piece} (h : LexesTo cs ps rest)
    (hrest : startsPlain (joinedPieces rest).items = false) :
    joinedPieces cs = ⟨ps ++ (joinedPieces rest).items, (joinedPieces rest).fault⟩ := by
  induction h with
  | nil => rfl
  | @plain text after rest ps hne hplain hps _ ih =>
    have hstarts : startsPlain (ps ++ (joinedPieces rest).items) = false := by
      cases ps with
      | nil => exact hrest
      | cons p ps => cases p <;> exact hps
    rw [joinedPieces_of_staysPlain hplain hne, ih hrest, Pieces.addPlain,
      addPlain_of_startsPlain hstarts]
    rfl
  | braces hfirst htag _ ih =>
    rw [joinedPieces_braces, cut?_eq_some_iff.2 hfirst]
    simp [ofBraces?_eq_some_iff.2 htag, ih hrest, Pieces.addTag]
  | brackets hfirst htag _ ih =>
    rw [joinedPieces_brackets, cut?_eq_some_iff.2 hfirst]
    simp [ofBrackets?_eq_some_iff.2 htag, ih hrest, Pieces.addTag]

theorem Stops.joinedPieces {cs : List Char} {fault : Option TemplateCause} (h : Stops cs fault) :
    joinedPieces cs = ⟨[], fault⟩ := by
  cases h with
  | done => simp [SeededText.joinedPieces, joinPlain]
  | braces hopen => rw [joinedPieces_braces, cut?_eq_none_iff.2 hopen]
  | brackets hopen hlooks =>
    rw [joinedPieces_brackets, cut?_eq_none_iff.2 hopen]
    simp [(looksLikeOption_iff _).2 hlooks]

/-- The scan takes a tag that it stands in front of. -/
theorem BeginsWith.joinedPieces {cs : List Char} {tag : Tag} (h : BeginsWith cs tag) :
    ∃ source more, (joinedPieces cs).items = .tag source tag :: more := by
  cases h with
  | braces hfirst htag =>
    rw [joinedPieces_braces, cut?_eq_some_iff.2 hfirst]
    simp only [ofBraces?_eq_some_iff.2 htag]
    exact ⟨_, _, rfl⟩
  | brackets hfirst htag =>
    rw [joinedPieces_brackets, cut?_eq_some_iff.2 hfirst]
    simp only [ofBrackets?_eq_some_iff.2 htag]
    exact ⟨_, _, rfl⟩

theorem joinedPieces_of_lexes {cs : List Char} {ps : List Piece} (h : Lexes cs ps) :
    joinedPieces cs = ⟨ps, none⟩ := by
  rw [joinedPieces_of_lexesTo (lexesTo_nil_iff.2 h) (by rw [Stops.done.joinedPieces]; rfl),
    Stops.done.joinedPieces, List.append_nil]

/-! ## 5. The grammar has what the scan finds -/

theorem StaysPlain.append {text more after : List Char} (h : StaysPlain text (more ++ after))
    (hmore : StaysPlain more after) : StaysPlain (text ++ more) after := by
  -- what follows must be a variable for the induction, and is the same in every case
  generalize hfollows : more ++ after = follows at h
  induction h with
  | nil => exact hmore
  | char hc _ ih =>
    subst hfollows
    exact .char (by simpa using hc) (ih rfl)
  | braces hfirst htag _ ih =>
    subst hfollows
    exact .braces (by simpa using hfirst) htag (ih rfl)
  | brackets hfirst htag _ ih =>
    subst hfollows
    exact .brackets (by simpa using hfirst) htag (ih rfl)
  | openBrackets hopen hlooks _ ih =>
    subst hfollows
    exact .openBrackets (by simpa using hopen) (by simpa using hlooks) (ih rfl)

/-- Text that stays plain joins the plain text after it. -/
theorem LexesTo.addPlain {text after rest : List Char} {ps : List Piece} (h : LexesTo after ps rest)
    (hne : text ≠ []) (hplain : StaysPlain text after) :
    LexesTo (text ++ after) (addPlain text ps) rest := by
  cases h with
  | nil => exact .plain hne hplain rfl (.nil _)
  | plain hne' hplain' hps h =>
    rw [← List.append_assoc]
    exact .plain (by simp [hne]) (hplain.append hplain') hps h
  | braces hfirst htag h => exact .plain hne hplain rfl (.braces hfirst htag h)
  | brackets hfirst htag h => exact .plain hne hplain rfl (.brackets hfirst htag h)

theorem startsMark_eq_true {cs : List Char} (h : startsMark cs = true) :
    (∃ rest, cs = '\x7b' :: '\x7b' :: rest) ∨ ∃ rest, cs = '[' :: '[' :: rest := by
  unfold startsMark at h
  split at h
  · next rest => exact .inl ⟨rest, rfl⟩
  · next rest => exact .inr ⟨rest, rfl⟩
  · cases h

/-- The text is taken as far as the scan takes it, and then there is a reason to stop. -/
def Taken (cs : List Char) : Prop :=
  ∃ rest, LexesTo cs (joinedPieces cs).items rest ∧ Stops rest (joinedPieces cs).fault

/-- What double braces open, if all shorter texts are taken so far. -/
theorem taken_braces {cs : List Char}
    (ih : ∀ rest : List Char, rest.length ≤ cs.length → Taken rest) :
    Taken ('\x7b' :: '\x7b' :: cs) := by
  unfold Taken
  rw [joinedPieces_braces]
  cases hcut : cut? ['\x7d', '\x7d'] cs with
  | none => exact ⟨_, .nil _, .braces (cut?_eq_none_iff.1 hcut)⟩
  | some parts =>
    obtain ⟨content, after⟩ := parts
    have hfirst := cut?_eq_some_iff.1 hcut
    cases htag : Tag.ofBraces? (trim content) with
    | none =>
      -- only the mark is plain: the scan goes on inside what would have been the tag
      have hplain : StaysPlain ['\x7b', '\x7b'] cs :=
        .braces hfirst (ofBraces?_eq_none_iff.1 htag) (.nil cs)
      obtain ⟨rest, hlexes, hstops⟩ := ih cs (Nat.le_refl _)
      simp only [htag]
      exact ⟨rest, hlexes.addPlain (List.cons_ne_nil _ _) hplain, hstops⟩
    | some tag =>
      obtain ⟨rest, hlexes, hstops⟩ := ih after hfirst.length_le
      simp only [htag]
      exact ⟨rest, .braces hfirst (ofBraces?_eq_some_iff.1 htag) hlexes, hstops⟩

/-- What double brackets open, likewise. -/
theorem taken_brackets {cs : List Char}
    (ih : ∀ rest : List Char, rest.length ≤ cs.length → Taken rest) :
    Taken ('[' :: '[' :: cs) := by
  unfold Taken
  rw [joinedPieces_brackets]
  cases hcut : cut? [']', ']'] cs with
  | none =>
    have hopen := cut?_eq_none_iff.1 hcut
    by_cases hlooks : looksLikeOption cs = true
    · simp only [hlooks, if_true]
      exact ⟨_, .nil _, .brackets hopen ((looksLikeOption_iff cs).1 hlooks)⟩
    · have hunlike : ¬ OptionLike cs := mt (looksLikeOption_iff cs).2 hlooks
      have hplain : StaysPlain ['[', '['] cs := .openBrackets hopen hunlike (.nil cs)
      obtain ⟨rest, hlexes, hstops⟩ := ih cs (Nat.le_refl _)
      simp only [hlooks]
      exact ⟨rest, hlexes.addPlain (List.cons_ne_nil _ _) hplain, hstops⟩
  | some parts =>
    obtain ⟨content, after⟩ := parts
    have hfirst := cut?_eq_some_iff.1 hcut
    cases htag : Tag.ofBrackets? (trim content) with
    | none =>
      have hplain : StaysPlain ['[', '['] cs :=
        .brackets hfirst (ofBrackets?_eq_none_iff.1 htag) (.nil cs)
      obtain ⟨rest, hlexes, hstops⟩ := ih cs (Nat.le_refl _)
      simp only [htag]
      exact ⟨rest, hlexes.addPlain (List.cons_ne_nil _ _) hplain, hstops⟩
    | some tag =>
      obtain ⟨rest, hlexes, hstops⟩ := ih after hfirst.length_le
      simp only [htag]
      exact ⟨rest, .brackets hfirst (ofBrackets?_eq_some_iff.1 htag) hlexes, hstops⟩

/-- The pieces that the scan finds are those that the grammar gives, up to where the scan stops. -/
theorem exists_lexesTo (cs : List Char) : Taken cs := by
  -- the rest of a tag is shorter by any amount, so the induction is on the length
  induction hn : cs.length using Nat.strongRecOn generalizing cs with
  | ind n ih =>
    subst hn
    match cs with
    | [] => exact ⟨[], by simpa [joinedPieces, joinPlain] using LexesTo.nil [], by
        simpa [joinedPieces] using Stops.done⟩
    | c :: cs =>
      have hshort : ∀ rest : List Char, rest.length ≤ cs.length → Taken rest :=
        fun rest hrest => ih rest.length (Nat.lt_succ_of_le hrest) rest rfl
      by_cases hmark : startsMark (c :: cs) = true
      · rcases startsMark_eq_true hmark with ⟨rest, hcs⟩ | ⟨rest, hcs⟩
        · cases hcs
          exact taken_braces fun rest' hlen => hshort rest' (Nat.le_succ_of_le hlen)
        · cases hcs
          exact taken_brackets fun rest' hlen => hshort rest' (Nat.le_succ_of_le hlen)
      · rw [Bool.not_eq_true] at hmark
        obtain ⟨rest, hlexes, hstops⟩ := hshort cs (Nat.le_refl _)
        unfold Taken
        rw [joinedPieces_cons hmark]
        exact ⟨rest, hlexes.addPlain (List.cons_ne_nil c [])
          (.char (by simpa using hmark) (.nil cs)), hstops⟩

/-- A text without a tag that is never closed is made of the pieces that the scan finds. -/
theorem lexes_of_joinedPieces {cs : List Char} (h : (joinedPieces cs).fault = none) :
    Lexes cs (joinedPieces cs).items := by
  obtain ⟨rest, hlexes, hstops⟩ := exists_lexesTo cs
  rw [h] at hstops
  cases hstops
  exact lexesTo_nil_iff.1 hlexes

/-- The grammar's pieces are those of the scan, joined, where the scan meets no fault. -/
theorem lexes_iff {cs : List Char} {ps : List Piece} :
    Lexes cs ps ↔ (pieces cs).fault = none ∧ joinPlain (pieces cs).items = ps := by
  constructor
  · intro h
    have hjoined := joinedPieces_of_lexes h
    rw [joinedPieces, Pieces.mk.injEq] at hjoined
    exact hjoined.symm
  · rintro ⟨hfault, rfl⟩
    exact lexes_of_joinedPieces hfault

end SeededText
