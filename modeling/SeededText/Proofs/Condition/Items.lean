import SeededText.Condition.Reader
import SeededText.Proofs.Text.Trim

/-!
# The items of a list

The body of a list is segments between commas.  A blank segment lists nothing.  A segment in quotes
lists the text between them, whatever it holds but the quote.  Any other segment lists its text
without the blanks around it, and then no quote and no comma stands in it.  `ItemsOf` says so.

The reader knows no segments in advance.  It walks along the characters with the quote that is open,
and cuts at the commas where none is.  `Passes` is that walk as long as it does not cut, and a body
either passes as a whole or passes up to a comma.  Both ways the reader has one equation
(`readItems_last`, `readItems_more`), and `readItems_eq_ok_iff` follows from the two.
-/

namespace SeededText

open Text

/-! ## 1. What a body lists -/

/-- A text in quotes of a kind that it does not hold. -/
inductive Quoted (text : List Char) : List Char → Prop where
  | intro {quote : Char} (hquote : isQuote quote = true) (hfree : quote ∉ text) :
    Quoted text (quote :: (text ++ [quote]))

/-- A text that a list may hold without quotes. -/
structure Bare (text : List Char) : Prop where
  nonempty : text ≠ []
  trimmed : trim text = text
  noQuote : ∀ c ∈ text, isQuote c = false
  noComma : ',' ∉ text

/-- What a segment lists: one text, or nothing if it is blank. -/
inductive SegmentOf : Option String → List Char → Prop where
  | blank {gap : List Char} (hgap : allBlank gap = true) : SegmentOf none gap
  | quoted {text : String} {lead cs tail : List Char} (hlead : allBlank lead = true)
    (htail : allBlank tail = true) (hcs : Quoted text.toList cs) :
    SegmentOf (some text) (lead ++ cs ++ tail)
  | bare {text : String} {lead tail : List Char} (hlead : allBlank lead = true)
    (htail : allBlank tail = true) (hbare : Bare text.toList) :
    SegmentOf (some text) (lead ++ text.toList ++ tail)

/-- What a body lists: the texts of its segments, in order. -/
inductive ItemsOf : List String → List Char → Prop where
  | last {found : Option String} {segment : List Char} (hsegment : SegmentOf found segment) :
    ItemsOf found.toList segment
  | more {found : Option String} {segment : List Char} {items : List String} {rest : List Char}
    (hsegment : SegmentOf found segment) (hrest : ItemsOf items rest) :
    ItemsOf (found.toList ++ items) (segment ++ ',' :: rest)

/-! ## 2. The walk along a segment -/

/-- With the quote `start` open in front of the text, no comma of it stands outside quotes, and the
quote `stop` is open behind it. -/
inductive Passes : (start : Option Char) → List Char → (stop : Option Char) → Prop where
  | nil (start : Option Char) : Passes start [] start
  | inside {quote c : Char} {cs : List Char} {stop : Option Char} (hc : c ≠ quote)
    (hrest : Passes (some quote) cs stop) : Passes (some quote) (c :: cs) stop
  | closing {quote : Char} {cs : List Char} {stop : Option Char} (hrest : Passes none cs stop) :
    Passes (some quote) (quote :: cs) stop
  | opening {c : Char} {cs : List Char} {stop : Option Char} (hc : isQuote c = true)
    (hrest : Passes (some c) cs stop) : Passes none (c :: cs) stop
  | plain {c : Char} {cs : List Char} {stop : Option Char} (hc : isQuote c = false)
    (hcomma : c ≠ ',') (hrest : Passes none cs stop) : Passes none (c :: cs) stop

section

variable {start middle stop : Option Char} {cs more : List Char}

theorem Passes.append (h : Passes start cs middle) (hmore : Passes middle more stop) :
    Passes start (cs ++ more) stop := by
  induction h with
  | nil => exact hmore
  | inside hc _ ih => exact .inside hc (ih hmore)
  | closing _ ih => exact .closing (ih hmore)
  | opening hc _ ih => exact .opening hc (ih hmore)
  | plain hc hcomma _ ih => exact .plain hc hcomma (ih hmore)

theorem passes_of_plain (hquote : ∀ c ∈ cs, isQuote c = false) (hcomma : ',' ∉ cs) :
    Passes none cs none := by
  induction cs with
  | nil => exact .nil none
  | cons c cs ih =>
    refine .plain (hquote c List.mem_cons_self) ?_ (ih ?_ ?_)
    · intro hc
      exact hcomma (hc ▸ List.mem_cons_self)
    · exact fun d hd => hquote d (List.mem_cons_of_mem c hd)
    · exact fun hd => hcomma (List.mem_cons_of_mem c hd)

theorem passes_of_not_mem {quote : Char} (h : quote ∉ cs) :
    Passes (some quote) cs (some quote) := by
  induction cs with
  | nil => exact .nil _
  | cons c cs ih =>
    refine .inside ?_ (ih fun hmem => h (List.mem_cons_of_mem c hmem))
    intro hc
    exact h (hc ▸ List.mem_cons_self)

/-- Where no quote stands, no comma passes. -/
theorem Passes.no_comma (h : Passes none cs stop) (hquote : ∀ c ∈ cs, isQuote c = false) :
    ',' ∉ cs := by
  generalize hstart : (none : Option Char) = start at h
  induction h with
  | nil => exact List.not_mem_nil
  | inside | closing => cases hstart
  | opening hc =>
    rw [hquote _ List.mem_cons_self] at hc
    cases hc
  | plain _ hcomma _ ih =>
    intro hmem
    rcases List.mem_cons.1 hmem with heq | hmem
    · exact hcomma heq.symm
    · exact ih (fun c hc => hquote c (List.mem_cons_of_mem _ hc)) hstart hmem

/-- Every text passes as a whole, or passes up to a comma. -/
theorem passes_or_comma (start : Option Char) (cs : List Char) :
    (∃ stop, Passes start cs stop) ∨
      ∃ segment rest, cs = segment ++ ',' :: rest ∧ Passes start segment none := by
  induction cs generalizing start with
  | nil => exact .inl ⟨start, .nil start⟩
  | cons c cs ih =>
    -- one step that passes is put in front of what the rest of the text does
    have step {next : Option Char}
        (hstep : ∀ {more stop}, Passes next more stop → Passes start (c :: more) stop) :
        (∃ stop, Passes start (c :: cs) stop) ∨
          ∃ segment rest, c :: cs = segment ++ ',' :: rest ∧ Passes start segment none := by
      rcases ih next with ⟨stop, h⟩ | ⟨segment, rest, hcs, h⟩
      · exact .inl ⟨stop, hstep h⟩
      · exact .inr ⟨c :: segment, rest, by rw [hcs]; rfl, hstep h⟩
    cases start with
    | some quote =>
      by_cases hc : c = quote
      · exact step fun h => hc ▸ .closing h
      · exact step (.inside hc)
    | none =>
      by_cases hquote : isQuote c = true
      · exact step (.opening hquote)
      · by_cases hcomma : c = ','
        · exact .inr ⟨[], cs, by rw [hcomma]; rfl, .nil none⟩
        · exact step (.plain (Bool.eq_false_iff.2 hquote) hcomma)

end

/-! ## 3. Cutting a body -/

/-- Puts a text in front of the first segment. -/
def Segments.pushAll (cs : List Char) (s : Segments) : Segments :=
  cs.foldr Segments.push s

theorem Segments.pushAll_eq (cs : List Char) (s : Segments) :
    s.pushAll cs = match s.closed with
      | [] => { s with last := cs ++ s.last }
      | segment :: segments => { s with closed := (cs ++ segment) :: segments } := by
  obtain ⟨closed, last, quote⟩ := s
  induction cs with
  | nil => cases closed <;> rfl
  | cons c cs ih =>
    rw [pushAll, List.foldr_cons, ← pushAll, ih]
    cases closed <;> rfl

/-- What passes stays in one segment. -/
theorem Passes.cut_append {start stop : Option Char} {cs : List Char} (h : Passes start cs stop)
    (rest : List Char) :
    Segments.cut start (cs ++ rest) = (Segments.cut stop rest).pushAll cs := by
  induction h with
  | nil => rfl
  | inside hc _ ih =>
    rw [List.cons_append, Segments.cut, if_neg hc, ih]
    rfl
  | closing _ ih =>
    rw [List.cons_append, Segments.cut, if_pos rfl, ih]
    rfl
  | opening hc _ ih =>
    rw [List.cons_append, Segments.cut, if_pos hc, ih]
    rfl
  | plain hc hcomma _ ih =>
    rw [List.cons_append, Segments.cut, if_neg (Bool.eq_false_iff.1 hc), if_neg hcomma, ih]
    rfl

section

variable {segment : List Char}

theorem Passes.cut_eq {stop : Option Char} (h : Passes none segment stop) :
    Segments.cut none segment = ⟨[], segment, stop⟩ := by
  have hcut := h.cut_append []
  rw [List.append_nil, Segments.pushAll_eq] at hcut
  simpa [Segments.cut] using hcut

theorem Passes.cut_comma (h : Passes none segment none) (rest : List Char) :
    Segments.cut none (segment ++ ',' :: rest) =
      { Segments.cut none rest with closed := segment :: (Segments.cut none rest).closed } := by
  have hcomma : Segments.cut none (',' :: rest) =
      { Segments.cut none rest with closed := [] :: (Segments.cut none rest).closed } := rfl
  rw [h.cut_append, hcomma, Segments.pushAll_eq]
  simp

/-! ## 4. Reading a body -/

/-- A body without a comma outside quotes is read as its one segment. -/
theorem readItems_last {stop : Option Char} (h : Passes none segment stop) :
    readItems segment =
      if stop.isSome then .error .unterminatedListQuote
      else (readItem segment).map Option.toList := by
  rw [readItems, h.cut_eq]
  cases stop with
  | some => rfl
  | none =>
    cases readItem segment with
    | error => rfl
    | ok found => cases found <;> rfl

/-- A body is read segment by segment. -/
theorem readItems_more (h : Passes none segment none) (rest : List Char) :
    readItems (segment ++ ',' :: rest) = (do
      let found ← readItem segment
      let items ← readItems rest
      return found.toList ++ items) := by
  rw [readItems, readItems, h.cut_comma, List.mapM_cons]
  cases readItem segment with
  | error => rfl
  | ok found =>
    cases (Segments.cut none rest).closed.mapM readItem with
    | error => rfl
    | ok others =>
      cases (Segments.cut none rest).openQuote with
      | some => rfl
      | none =>
        cases readItem (Segments.cut none rest).last with
        | error => rfl
        | ok last => cases found <;> rfl

end

/-! ## 5. Reading a segment -/

theorem isBlank_of_isQuote {c : Char} (h : isQuote c = true) : isBlank c = false := by
  simp only [isQuote, Bool.or_eq_true, decide_eq_true_eq] at h
  rcases h with rfl | rfl <;> rfl

theorem not_isQuote_of_isBlank {c : Char} (h : isBlank c = true) : isQuote c = false := by
  rw [Bool.eq_false_iff]
  intro hquote
  rw [isBlank_of_isQuote hquote] at h
  cases h

theorem noQuote_of_allBlank {gap : List Char} (h : allBlank gap = true) :
    ∀ c ∈ gap, isQuote c = false :=
  fun c hc => not_isQuote_of_isBlank (List.all_eq_true.1 h c hc)

theorem passes_of_allBlank {gap : List Char} (h : allBlank gap = true) : Passes none gap none := by
  refine passes_of_plain (noQuote_of_allBlank h) fun hmem => ?_
  have hcomma : isBlank ',' = true := List.all_eq_true.1 h ',' hmem
  cases hcomma

theorem dropLast?_eq_some_iff {c : Char} {cs inner : List Char} :
    dropLast? c cs = some inner ↔ cs = inner ++ [c] := by
  rw [dropLast?]
  constructor
  · intro h
    split at h
    · next hlast =>
      obtain ⟨front, rfl⟩ := List.getLast?_eq_some_iff.1 hlast
      rw [List.dropLast_concat] at h
      cases h
      rfl
    · cases h
  · rintro rfl
    simp

section

variable {text : List Char} {cs lead tail : List Char}

theorem Quoted.passes (h : Quoted text cs) : Passes none cs none := by
  cases h with
  | intro hquote hfree =>
    exact .opening hquote ((passes_of_not_mem hfree).append (.closing (.nil none)))

theorem Quoted.trim_eq (h : Quoted text cs) : trim cs = cs := by
  cases h with
  | intro hquote =>
    have hblank := isBlank_of_isQuote hquote
    rw [trim_cons hblank, trimEnd_append_cons hblank]
    rfl

theorem readItem_of_allBlank (h : allBlank cs = true) : readItem cs = .ok none := by
  rw [readItem, trim_of_allBlank h]

theorem readItem_between (hlead : allBlank lead = true) (htail : allBlank tail = true)
    (cs : List Char) : readItem (lead ++ cs ++ tail) = readItem cs := by
  rw [readItem, readItem, trim_between hlead htail]

theorem readItem_of_quoted (h : Quoted text cs) :
    readItem cs = .ok (some (String.ofList text)) := by
  rw [readItem, h.trim_eq]
  cases h with
  | @intro quote hquote hfree =>
    have hdrop : dropLast? quote (text ++ [quote]) = some text := dropLast?_eq_some_iff.2 rfl
    have hcontains : text.contains quote = false := by simpa using hfree
    simp only [hquote, hdrop, hcontains, if_true]
    rfl

theorem readItem_of_bare (h : Bare text) : readItem text = .ok (some (String.ofList text)) := by
  rw [readItem, h.trimmed]
  cases htext : text with
  | nil => exact absurd htext h.nonempty
  | cons c rest =>
    have hc : isQuote c = false := h.noQuote c (htext ▸ List.mem_cons_self)
    have hrest : rest.any isQuote = false := List.any_eq_false.2 fun d hd =>
      Bool.eq_false_iff.1 (h.noQuote d (htext ▸ List.mem_cons_of_mem c hd))
    simp [hc, hrest]

end

section

variable {found : Option String} {segment : List Char}

theorem SegmentOf.passes (h : SegmentOf found segment) : Passes none segment none := by
  cases h with
  | blank hgap => exact passes_of_allBlank hgap
  | quoted hlead htail hcs =>
    exact ((passes_of_allBlank hlead).append hcs.passes).append (passes_of_allBlank htail)
  | bare hlead htail hbare =>
    have htext := passes_of_plain hbare.noQuote hbare.noComma
    exact ((passes_of_allBlank hlead).append htext).append (passes_of_allBlank htail)

theorem SegmentOf.readItem_eq (h : SegmentOf found segment) : readItem segment = .ok found := by
  cases h with
  | blank hgap => exact readItem_of_allBlank hgap
  | quoted hlead htail hcs =>
    rw [readItem_between hlead htail, readItem_of_quoted hcs, String.ofList_toList]
  | bare hlead htail hbare =>
    rw [readItem_between hlead htail, readItem_of_bare hbare, String.ofList_toList]

/-- The reader finds nothing, or the text in quotes, or the text without a quote that is all there
is but blanks. -/
theorem readItem_eq_ok_cases (h : readItem segment = .ok found) :
    (trim segment = [] ∧ found = none) ∨
      ∃ text : String, found = some text ∧
        (Quoted text.toList (trim segment) ∨
          (trim segment = text.toList ∧ text.toList ≠ [] ∧
            ∀ c ∈ text.toList, isQuote c = false)) := by
  rw [readItem] at h
  cases htrim : trim segment with
  | nil =>
    rw [htrim] at h
    cases h
    exact .inl ⟨rfl, rfl⟩
  | cons c rest =>
    right
    simp only [htrim] at h
    by_cases hquote : isQuote c = true
    · rw [if_pos hquote] at h
      split at h
      · cases h
      · next inner hinner =>
        split at h
        · cases h
        · next hfree =>
          cases h
          refine ⟨_, rfl, .inl ?_⟩
          rw [dropLast?_eq_some_iff.1 hinner, String.toList_ofList]
          exact .intro hquote (by simpa using hfree)
    · rw [if_neg hquote] at h
      split at h
      · cases h
      · next hany =>
        cases h
        refine ⟨_, rfl, .inr ?_⟩
        rw [String.toList_ofList]
        refine ⟨rfl, List.cons_ne_nil c rest, ?_⟩
        intro d hd
        rw [Bool.eq_false_iff]
        intro hd'
        rcases List.mem_cons.1 hd with rfl | hd
        · exact hquote hd'
        · exact hany (List.any_eq_true.2 ⟨d, hd, hd'⟩)

/-- What the reader finds in a segment is what the segment lists. -/
theorem segmentOf_of_readItem (hpass : Passes none segment none)
    (h : readItem segment = .ok found) : SegmentOf found segment := by
  obtain ⟨lead, tail, hlead, htail, hsegment⟩ := exists_trim_append segment
  have htrimmed := trim_trim segment
  rcases readItem_eq_ok_cases h with ⟨hnil, rfl⟩ | ⟨text, rfl, hquoted | ⟨htext, hne, hnone⟩⟩
  · refine .blank ?_
    rw [hsegment, hnil, List.append_nil]
    exact allBlank_append hlead htail
  · rw [hsegment]
    exact .quoted hlead htail hquoted
  · rw [htext] at hsegment htrimmed
    -- no quote stands in the segment at all, so that a comma would have ended it
    have hall : ∀ c ∈ segment, isQuote c = false := by
      intro c hc
      simp only [hsegment, List.mem_append] at hc
      rcases hc with (hc | hc) | hc
      · exact noQuote_of_allBlank hlead c hc
      · exact hnone c hc
      · exact noQuote_of_allBlank htail c hc
    have hcomma : ',' ∉ text.toList := by
      intro hmem
      refine hpass.no_comma hall ?_
      rw [hsegment, List.mem_append, List.mem_append]
      exact .inl (.inr hmem)
    rw [hsegment]
    exact .bare hlead htail ⟨hne, htrimmed, hnone, hcomma⟩

end

/-! ## 6. The items -/

theorem itemsOf_of_readItems (body : List Char) {items : List String}
    (h : readItems body = .ok items) : ItemsOf items body := by
  rcases passes_or_comma none body with ⟨stop, hpass⟩ | ⟨segment, rest, hbody, hpass⟩
  · rw [readItems_last hpass] at h
    cases stop with
    | some => cases h
    | none =>
      cases hfound : readItem body with
      | error => rw [hfound] at h; cases h
      | ok found =>
        rw [hfound] at h
        cases h
        exact .last (segmentOf_of_readItem hpass hfound)
  · have hlt : rest.length < body.length := by
      rw [hbody, List.length_append, List.length_cons]
      omega
    rw [hbody, readItems_more hpass] at h
    cases hfound : readItem segment with
    | error => rw [hfound] at h; cases h
    | ok found =>
      cases hothers : readItems rest with
      | error => rw [hfound, hothers] at h; cases h
      | ok others =>
        rw [hfound, hothers] at h
        cases h
        rw [hbody]
        exact .more (segmentOf_of_readItem hpass hfound) (itemsOf_of_readItems rest hothers)
termination_by body.length

theorem ItemsOf.readItems_eq {items : List String} {body : List Char} (h : ItemsOf items body) :
    readItems body = .ok items := by
  induction h with
  | last hsegment =>
    rw [readItems_last hsegment.passes, hsegment.readItem_eq]
    rfl
  | more hsegment _ ih =>
    rw [readItems_more hsegment.passes, hsegment.readItem_eq, ih]
    rfl

/-- The reader finds in a body what the body lists, and takes no other body. -/
theorem readItems_eq_ok_iff {items : List String} {body : List Char} :
    readItems body = .ok items ↔ ItemsOf items body :=
  ⟨itemsOf_of_readItems body, ItemsOf.readItems_eq⟩

/-- A comma in quotes parts nothing, and nothing stands between the two others. -/
example : readItems "'a, b' , , c d".toList = .ok ["a, b", "c d"] := rfl

end SeededText
