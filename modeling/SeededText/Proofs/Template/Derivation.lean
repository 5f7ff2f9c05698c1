import SeededText.Proofs.Template.Frames

/-!
# Reading is deriving

The other direction: pieces that derive nodes are read, and read as these nodes.  The statement
that goes through the induction on derivations is about a reader anywhere in a text, with any
blocks open: content is placed at the end of the innermost one and nothing else is changed
(`Content.run`), and options are closed into their group (`Choices.run`).

With the invariant of `SeededText.Proofs.Template.Frames` for the first direction, a text is read as
a template exactly when the grammar derives the template from it: `read_eq_ok_iff`.
-/

namespace SeededText

open Text

/-! ## 1. Placing nodes -/

/-- The nodes outside all blocks and the open blocks. -/
def Reader.tree (r : Reader) : List Node × List Frame :=
  (r.root, r.stack)

/-- A node at the end of the innermost open block. -/
def put (node : Node) : List Node × List Frame → List Node × List Frame
  | (root, []) => (node :: root, [])
  | (root, frame :: frames) => (root, { frame with nodes := node :: frame.nodes } :: frames)

/-- Nodes at the end of the innermost open block, one after another. -/
def putAll : List Node → List Node × List Frame → List Node × List Frame
  | [], tree => tree
  | node :: nodes, tree => putAll nodes (put node tree)

@[simp]
theorem tree_place (r : Reader) (node : Node) : (r.place node).tree = put node r.tree := by
  obtain ⟨offset, pending, pendingAt, root, stack, groups⟩ := r
  cases stack <;> rfl

theorem putAll_nil_stack (nodes root : List Node) :
    putAll nodes (root, []) = (nodes.reverse ++ root, []) := by
  induction nodes generalizing root with
  | nil => rfl
  | cons node nodes ih => simp [putAll, put, ih]

theorem putAll_cons_stack (nodes root : List Node) (frame : Frame) (frames : List Frame) :
    putAll nodes (root, frame :: frames)
      = (root, { frame with nodes := nodes.reverse ++ frame.nodes } :: frames) := by
  induction nodes generalizing frame with
  | nil => rfl
  | cons node nodes ih => simp [putAll, put, ih]

theorem insideGroup_put (node : Node) (tree : List Node × List Frame) :
    insideGroup (put node tree).2 = insideGroup tree.2 := by
  obtain ⟨root, stack⟩ := tree
  cases stack with
  | nil => rfl
  | cons frame frames =>
    obtain ⟨block, nodes, openedAt⟩ := frame
    cases block <;> rfl

/-! ## 2. Steps that succeed -/

theorem flush_of_pending_eq_nil {r : Reader} (h : r.pending = []) : r.flush = .ok r := by
  simp [Reader.flush, h]

theorem flush_of_outside {r : Reader} (hne : r.pending ≠ [])
    (hgroup : insideGroup r.stack = false) :
    r.flush = .ok (({ r with pending := [] } : Reader).place
      (.literal (String.ofList r.pending.reverse))) := by
  simp [Reader.flush, hne, inOptions_eq, hgroup]

theorem flush_of_inside {r : Reader} (hblank : allBlank r.pending.reverse = true)
    (hgroup : insideGroup r.stack = true) : r.flush = .ok { r with pending := [] } := by
  cases hpending : r.pending with
  | nil =>
    rw [flush_of_pending_eq_nil hpending, ← hpending]
  | cons c cs =>
    rw [hpending] at hblank
    unfold Reader.flush
    rw [hpending, if_neg (by simp), inOptions_eq, hgroup, if_pos rfl, if_pos hblank]

theorem pending_flush {r f : Reader} (h : r.flush = .ok f) : f.pending = [] := by
  unfold Reader.flush at h
  split at h
  · next hpending => cases h; exact List.isEmpty_iff.1 hpending
  · dsimp only at h
    split at h
    · split at h
      · cases h; rfl
      · cases h
    · cases h; simp

/-- The reader places its pending text and then holds this tree and has met so many groups. -/
def Reader.Settles (r : Reader) (tree : List Node × List Frame) (groups : Nat) : Prop :=
  ∃ f, r.flush = .ok f ∧ f.tree = tree ∧ f.groups = groups

/-- The reader takes the pieces and settles. -/
def Runs (ps : List Piece) (r : Reader) (tree : List Node × List Frame) (groups : Nat) : Prop :=
  ∃ r', ps.foldlM Reader.take r = .ok r' ∧ r'.Settles tree groups

section

variable {r : Reader} {ps qs : List Piece} {tree tree' : List Node × List Frame} {m n : Nat}

theorem Runs.append (h : Runs ps r tree m)
    (hnext : ∀ r', r'.Settles tree m → Runs qs r' tree' n) : Runs (ps ++ qs) r tree' n := by
  obtain ⟨r₁, hps, hsettles⟩ := h
  obtain ⟨r₂, hqs, hsettles'⟩ := hnext r₁ hsettles
  refine ⟨r₂, ?_, hsettles'⟩
  rw [List.foldlM_append, hps]
  exact hqs

/-- A tag is taken by what it does once the pending text is placed, and then no text is pending. -/
theorem Runs.tag {tag : Tag} (source : List Char) (hsettles : r.Settles tree m)
    (happly : ∀ f : Reader, f.tree = tree → f.groups = m → f.offset = r.offset →
      ∃ g, f.apply tag = .ok g ∧ g.pending = f.pending ∧
        ∀ r', r'.Settles g.tree g.groups → r'.pending = [] → Runs ps r' tree' n) :
    Runs (.tag source tag :: ps) r tree' n := by
  obtain ⟨f, hflush, htree, hgroups⟩ := hsettles
  obtain ⟨g, hg, hpending, hnext⟩ := happly f htree hgroups (offset_flush hflush)
  have hbare : tag ≠ .bareOption := by
    rintro rfl
    cases hg
  have htake : r.take (.tag source tag) = .ok { g with offset := g.offset + source.length } :=
    take_tag_eq_ok.2 ⟨hbare, f, g, hflush, hg, rfl⟩
  have hnil : g.pending = [] := by rw [hpending, pending_flush hflush]
  obtain ⟨r', hrun, hsettles'⟩ := hnext { g with offset := g.offset + source.length }
    ⟨_, flush_of_pending_eq_nil hnil, rfl, rfl⟩ hnil
  refine ⟨r', ?_, hsettles'⟩
  rw [List.foldlM_cons, htake]
  exact hrun

/-- Blank text directly inside a group is dropped. -/
theorem Runs.gap {text : List Char} (hblank : allBlank text = true)
    (hsettles : r.Settles tree m) (hgroup : insideGroup tree.2 = true) (hpending : r.pending = [])
    (hnext : ∀ r', r'.Settles tree m → Runs ps r' tree' n) :
    Runs (.plain text :: ps) r tree' n := by
  obtain ⟨f, hflush, rfl, rfl⟩ := hsettles
  rw [flush_of_pending_eq_nil hpending] at hflush
  cases hflush
  have hpending' : (r.append text).pending = text.reverse := by
    simp [Reader.append, hpending, List.reverseAux_eq]
  have hflush' := flush_of_inside (r := { r.append text with offset := r.offset + text.length })
    (by simpa [hpending'] using hblank) hgroup
  obtain ⟨r', hrun, hsettles'⟩ := hnext _ ⟨_, hflush', rfl, rfl⟩
  exact ⟨r', hrun, hsettles'⟩

/-- An opening tag is taken by opening its block, where the reader stands, with nothing in it. -/
theorem Runs.opening {tag : Tag} {root : List Node} {frames : List Frame} (block : Block)
    (source : List Char) (hsettles : r.Settles (root, frames) m)
    (happly : ∀ f : Reader, f.stack = frames → f.apply tag = .ok (f.openBlock block))
    (hnext : ∀ r', r'.Settles (root, ⟨block, [], r.offset⟩ :: frames) m →
      r'.pending = [] → Runs ps r' tree' n) :
    Runs (.tag source tag :: ps) r tree' n := by
  refine Runs.tag source hsettles fun f htree hgroups hoffset => ?_
  obtain ⟨rfl, rfl⟩ := Prod.mk.inj htree
  subst hgroups
  rw [← hoffset] at hnext
  exact ⟨_, happly f rfl, rfl, hnext⟩

/-- A closing tag is taken by putting what the block has become into the block around it. -/
theorem Runs.closing {tag : Tag} {root : List Node} {frame : Frame} {frames : List Frame}
    (node : Node) (source : List Char) (hsettles : r.Settles (root, frame :: frames) m)
    (happly : ∀ f : Reader, f.stack = frame :: frames →
      f.apply tag = .ok (({ f with stack := frames } : Reader).place node))
    (hnext : ∀ r', r'.Settles (put node (root, frames)) m → r'.pending = [] → Runs ps r' tree' n) :
    Runs (.tag source tag :: ps) r tree' n := by
  refine Runs.tag source hsettles fun f htree hgroups _ => ?_
  obtain ⟨rfl, hstack⟩ := Prod.mk.inj htree
  refine ⟨_, happly f hstack, pending_place _ _, ?_⟩
  rw [tree_place, groups_place, hgroups]
  exact hnext

/-- Plain text outside the groups themselves becomes a literal. -/
theorem Runs.plain {text : List Char} (hne : text ≠ []) (hsettles : r.Settles tree m)
    (hgroup : insideGroup tree.2 = false) (hpending : r.pending = [])
    (hnext : ∀ r', r'.Settles (put (.literal (String.ofList text)) tree) m →
      Runs ps r' tree' n) :
    Runs (.plain text :: ps) r tree' n := by
  obtain ⟨f, hflush, rfl, rfl⟩ := hsettles
  rw [flush_of_pending_eq_nil hpending] at hflush
  cases hflush
  have hpending' : (r.append text).pending = text.reverse := by
    simp [Reader.append, hpending, List.reverseAux_eq]
  have hflush' := flush_of_outside (r := { r.append text with offset := r.offset + text.length })
    (by simpa [hpending'] using hne) hgroup
  obtain ⟨r', hrun, hsettles'⟩ := hnext _ ⟨_, hflush', by
    rw [tree_place, hpending', List.reverse_reverse]
    rfl, groups_place _ _⟩
  exact ⟨r', hrun, hsettles'⟩

end

/-! ## 3. Derivations are read -/

mutual

/-- Content is read into the innermost open block. -/
theorem Content.run {m n : Nat} {ps : List Piece} {nodes : List Node} :
    Content m ps nodes n → Separated ps → ∀ {r : Reader} {tree : List Node × List Frame},
      r.Settles tree m → insideGroup tree.2 = false → (startsPlain ps = true → r.pending = []) →
        Runs ps r (putAll nodes tree) n
  | .nil m, _, r, _, hsettles, _, _ => ⟨r, rfl, hsettles⟩
  | .text text h, hsep, r, tree, hsettles, hgroup, hpending => by
    obtain ⟨hne, hafter⟩ := hsep [] text _ rfl
    refine Runs.plain hne hsettles hgroup (hpending rfl) fun r₁ h₁ => ?_
    refine h.run hsep.tail h₁ (by rwa [insideGroup_put]) fun hplain => ?_
    rw [hafter] at hplain
    cases hplain
  | .reference source name h, hsep, r, (root, stack), hsettles, hgroup, _ => by
    refine Runs.tag source hsettles fun f htree hgroups _ => ?_
    obtain ⟨rfl, rfl⟩ := Prod.mk.inj htree
    refine ⟨f.place (.variable (String.ofList name)), allowContent_bind_eq_ok.2 ⟨hgroup, rfl⟩,
      pending_place _ _, fun r₁ h₁ hnil => ?_⟩
    rw [tree_place, groups_place, hgroups] at h₁
    exact h.run hsep.tail h₁ (by rwa [insideGroup_put]) fun _ => hnil
  | @Content.ifThen m _ _ _ _ thenBranch _ source condition close hthen h, hsep, r,
    (root, frames), hsettles, hgroup, _ => by
    refine Runs.opening (.conditional (String.ofList condition) none) source hsettles
      (fun f hstack => ?_) fun r₁ h₁ hnil₁ => ?_
    · subst hstack
      exact allowContent_bind_eq_ok.2 ⟨hgroup, rfl⟩
    refine Runs.append (hthen.run hsep.left.tail h₁ rfl fun _ => hnil₁) fun r₂ h₂ => ?_
    -- the branch stands in the frame as a whole, so closing finds it there
    simp only [putAll_cons_stack, List.append_nil] at h₂
    refine Runs.closing (.conditional (String.ofList condition) thenBranch none) close h₂
      (fun f hstack => ?_) fun r₃ h₃ hnil₃ => ?_
    · simp [Reader.apply, Reader.closeIf, hstack]
    exact h.run hsep.of_append.tail h₃ (by rwa [insideGroup_put]) fun _ => hnil₃
  | @Content.ifElse m _ _ _ _ _ _ thenBranch elseBranch _ source condition turn close hthen helse h,
    hsep, r, (root, frames), hsettles, hgroup, _ => by
    rw [List.append_assoc] at hsep ⊢
    refine Runs.opening (.conditional (String.ofList condition) none) source hsettles
      (fun f hstack => ?_) fun r₁ h₁ hnil₁ => ?_
    · subst hstack
      exact allowContent_bind_eq_ok.2 ⟨hgroup, rfl⟩
    refine Runs.append (hthen.run hsep.left.tail h₁ rfl fun _ => hnil₁) fun r₂ h₂ => ?_
    simp only [putAll_cons_stack, List.append_nil] at h₂
    have hsep := hsep.of_append
    -- the same frame goes on with the first branch put away and nothing in it
    refine Runs.tag turn h₂ fun f htree hgroups _ => ?_
    obtain ⟨rfl, hstack⟩ := Prod.mk.inj htree
    subst hgroups
    refine ⟨{ f with
      stack := ⟨.conditional (String.ofList condition) (some thenBranch), [], r.offset⟩ :: frames },
      by simp [Reader.apply, Reader.turnElse, hstack], rfl, fun r₃ h₃ hnil₃ => ?_⟩
    refine Runs.append (helse.run hsep.left.tail h₃ rfl fun _ => hnil₃) fun r₄ h₄ => ?_
    simp only [Reader.tree, putAll_cons_stack, List.append_nil] at h₄
    refine Runs.closing (.conditional (String.ofList condition) thenBranch (some elseBranch)) close
      h₄ (fun f hstack => ?_) fun r₅ h₅ hnil₅ => ?_
    · simp [Reader.apply, Reader.closeIf, hstack]
    exact h.run hsep.of_append.tail h₅ (by rwa [insideGroup_put]) fun _ => hnil₅
  | @Content.group m _ _ _ _ options _ source close hoptions hne h, hsep, r, (root, frames),
    hsettles, hgroup, _ => by
    refine Runs.tag source hsettles fun f htree hgroups _ => ?_
    obtain ⟨rfl, rfl⟩ := Prod.mk.inj htree
    subst hgroups
    refine ⟨f.openOptions, allowContent_bind_eq_ok.2 ⟨hgroup, rfl⟩, rfl, fun r₁ h₁ hnil₁ => ?_⟩
    refine Runs.append (hoptions.run hsep.left.tail h₁ fun _ => hnil₁) fun r₂ h₂ => ?_
    refine Runs.closing (.optionGroup f.groups options) close h₂ (fun f hstack => ?_)
      fun r₃ h₃ hnil₃ => ?_
    · simp [Reader.apply, Reader.closeOptions, hstack, hne]
    exact h.run hsep.of_append.tail h₃ (by rwa [insideGroup_put]) fun _ => hnil₃

/-- Options are read into the group that is the innermost open block. -/
theorem Choices.run {m n : Nat} {ps : List Piece} {options : List (Choice Node)} :
    Choices m ps options n → Separated ps → ∀ {r : Reader} {root nodes : List Node}
      {frames : List Frame} {index openedAt : Nat} {closed : List (Choice Node)},
        r.Settles (root, ⟨.options index closed, nodes, openedAt⟩ :: frames) m →
          (startsPlain ps = true → r.pending = []) →
            Runs ps r
              (root, ⟨.options index (options.reverse ++ closed), nodes, openedAt⟩ :: frames) n
  | .nil m, _, r, _, _, _, _, _, _, hsettles, _ => ⟨r, rfl, hsettles⟩
  | .gap hblank h, hsep, r, root, nodes, frames, index, openedAt, closed, hsettles, hpending => by
    obtain ⟨-, hafter⟩ := hsep [] _ _ rfl
    refine Runs.gap hblank hsettles rfl (hpending rfl) fun r₁ h₁ => ?_
    -- the blank text is still pending, but what follows it is no plain text
    refine h.run hsep.tail h₁ fun hplain => ?_
    rw [hafter] at hplain
    cases hplain
  | @Choices.option m _ _ _ _ title condition body _ _ source close hattributes hbody h, hsep, r,
    root, nodes, frames, index, openedAt, closed, hsettles, _ => by
    refine Runs.opening (.optionBody title condition) source hsettles (fun f hstack => ?_)
      fun r₁ h₁ hnil₁ => ?_
    · simp [Reader.apply, Reader.openOption, inOptions_eq, hstack, insideGroup, hattributes]
    refine Runs.append (hbody.run hsep.left.tail h₁ rfl fun _ => hnil₁) fun r₂ h₂ => ?_
    simp only [putAll_cons_stack, List.append_nil] at h₂
    refine Runs.tag close h₂ fun f htree hgroups _ => ?_
    obtain ⟨rfl, hstack⟩ := Prod.mk.inj htree
    subst hgroups
    -- the option joins the group under it, which holds its options from the last to the first
    refine ⟨{ f with
      stack := ⟨.options index (⟨title, condition, body⟩ :: closed), nodes, openedAt⟩ :: frames },
      by simp [Reader.apply, Reader.closeOption, hstack, addOption], rfl, fun r₃ h₃ hnil₃ => ?_⟩
    simpa using h.run hsep.of_append.tail h₃ fun _ => hnil₃

end

/-- A frame is read from where it is opened, up to what is in it so far. -/
theorem Frame.Opens.run {m n : Nat} {ps : List Piece} {frame : Frame} (h : frame.Opens m ps n)
    (hsep : Separated ps) {r : Reader} {root : List Node} {frames : List Frame}
    (hsettles : r.Settles (root, frames) m) (hfits : frame.isOption = insideGroup frames)
    (hat : frame.openedAt = r.offset) : Runs ps r (root, frame :: frames) n := by
  cases h with
  | thenBranch source condition openedAt hthen =>
    subst hat
    refine Runs.opening (.conditional (String.ofList condition) none) source hsettles
      (fun f hstack => ?_) fun r₁ h₁ hnil₁ => ?_
    · subst hstack
      exact allowContent_bind_eq_ok.2 ⟨hfits.symm, rfl⟩
    · simpa [putAll_cons_stack] using hthen.run hsep.tail h₁ rfl fun _ => hnil₁
  | @elseBranch _ _ _ _ thenBranch nodes source condition turn openedAt hthen helse =>
    subst hat
    refine Runs.opening (.conditional (String.ofList condition) none) source hsettles
      (fun f hstack => ?_) fun r₁ h₁ hnil₁ => ?_
    · subst hstack
      exact allowContent_bind_eq_ok.2 ⟨hfits.symm, rfl⟩
    refine Runs.append (hthen.run hsep.left.tail h₁ rfl fun _ => hnil₁) fun r₂ h₂ => ?_
    simp only [putAll_cons_stack, List.append_nil] at h₂
    refine Runs.tag turn h₂ fun f htree hgroups _ => ?_
    obtain ⟨rfl, hstack⟩ := Prod.mk.inj htree
    subst hgroups
    refine ⟨{ f with
      stack := ⟨.conditional (String.ofList condition) (some thenBranch), [], r.offset⟩ :: frames },
      by simp [Reader.apply, Reader.turnElse, hstack], rfl, fun r₃ h₃ hnil₃ => ?_⟩
    simpa [Reader.tree, putAll_cons_stack] using helse.run hsep.of_append.tail h₃ rfl fun _ => hnil₃
  | @options _ _ closed source openedAt hclosed =>
    subst hat
    refine Runs.tag source hsettles fun f htree hgroups hoffset => ?_
    obtain ⟨rfl, rfl⟩ := Prod.mk.inj htree
    subst hgroups
    refine ⟨f.openOptions, allowContent_bind_eq_ok.2 ⟨hfits.symm, rfl⟩, rfl, fun r₁ h₁ hnil₁ => ?_⟩
    have hrun := hclosed.run hsep.tail h₁ fun _ => hnil₁
    rw [List.reverse_reverse, List.append_nil] at hrun
    rw [← hoffset]
    exact hrun
  | @optionBody _ _ nodes title condition attributes source openedAt hattributes hbody =>
    subst hat
    refine Runs.opening (.optionBody title condition) source hsettles (fun f hstack => ?_)
      fun r₁ h₁ hnil₁ => ?_
    · simp [Reader.apply, Reader.openOption, inOptions_eq, hstack, ← hfits, Frame.isOption,
        hattributes]
    · simpa [putAll_cons_stack] using hbody.run hsep.tail h₁ rfl fun _ => hnil₁

/-- What pieces leave open is what the reader has open behind them. -/
theorem Reads.run {n : Nat} {ps : List Piece} {root : List Node} {frames : List Frame}
    (h : Reads ps root frames n) (hsep : Separated ps) : Runs ps .start (root, frames) n := by
  induction h with
  | root hcontent =>
    have hstart : Reader.start.Settles ([], []) 0 := ⟨.start, rfl, rfl, rfl⟩
    simpa [putAll_nil_stack] using hcontent.run hsep hstart rfl fun _ => rfl
  | frame _ hopens hfits hat ih =>
    obtain ⟨r₁, hrun, hsettles⟩ := ih hsep.left
    have hoffset := (holds_of_run hsep.left hrun).1
    obtain ⟨r₂, hrun', hsettles'⟩ :=
      hopens.run hsep.of_append hsettles hfits (hat.trans hoffset.symm)
    refine ⟨r₂, ?_, hsettles'⟩
    rw [List.foldlM_append, hrun]
    exact hrun'

/-! ## 4. The reading of a text -/

/-- Pieces are read as nodes exactly when they derive them. -/
theorem foldlM_take_finish_iff {ps : List Piece} {nodes : List Node} (hsep : Separated ps) :
    (∃ r, ps.foldlM Reader.take .start = .ok r ∧ r.finish = .ok nodes)
      ↔ ∃ n, Content 0 ps nodes n := by
  constructor
  · rintro ⟨r, hrun, hfinish⟩
    exact (holds_of_run hsep hrun).finish hfinish
  · rintro ⟨n, hc⟩
    have hstart : Reader.start.Settles ([], []) 0 := ⟨.start, rfl, rfl, rfl⟩
    obtain ⟨r, hrun, f, hflush, htree, -⟩ := hc.run hsep hstart rfl fun _ => rfl
    rw [putAll_nil_stack, List.append_nil] at htree
    obtain ⟨hroot, hstack⟩ := Prod.mk.inj htree
    refine ⟨r, hrun, ?_⟩
    unfold Reader.finish
    rw [stack_flush hflush] at hstack
    rw [hstack, hflush]
    simp [bind, Except.bind, pure, Except.pure, hroot]

theorem readTemplate_eq_ok {cs : List Char} {nodes : List Node} :
    readTemplate cs = .ok nodes
      ↔ (pieces cs).fault = none ∧
        ∃ r, (joinPlain (pieces cs).items).foldlM Reader.take .start = .ok r ∧
          r.finish = .ok nodes := by
  rw [foldlM_joinPlain _ fun p hp => source_ne_nil_of_mem_pieces hp]
  unfold readTemplate
  dsimp only
  cases hrun : (pieces cs).items.foldlM Reader.take .start with
  | error fault => simp [bind, Except.bind]
  | ok r =>
    cases hfault : (pieces cs).fault with
    | none => simp [bind, Except.bind]
    | some cause => simp [bind, Except.bind, faultAt]

/-- Nodes are read from characters exactly when these are made of pieces that derive the nodes. -/
theorem readTemplate_eq_ok_iff {cs : List Char} {nodes : List Node} :
    readTemplate cs = .ok nodes ↔ ∃ ps n, Lexes cs ps ∧ Content 0 ps nodes n := by
  rw [readTemplate_eq_ok]
  constructor
  · rintro ⟨hfault, hrun⟩
    have hlexes := lexes_iff.2 ⟨hfault, rfl⟩
    obtain ⟨n, hc⟩ := (foldlM_take_finish_iff hlexes.separated).1 hrun
    exact ⟨_, n, hlexes, hc⟩
  · rintro ⟨ps, n, hlexes, hc⟩
    obtain ⟨hfault, hps⟩ := lexes_iff.1 hlexes
    refine ⟨hfault, ?_⟩
    rw [hps]
    exact (foldlM_take_finish_iff hlexes.separated).2 ⟨n, hc⟩

theorem read_eq_ok {text : String} {template : Template} :
    Template.read text = .ok template ↔ readTemplate text.toList = .ok template.nodes := by
  obtain ⟨nodes⟩ := template
  unfold Template.read
  dsimp only
  split
  · next h => rw [h]; simp
  · next h => rw [h]; simp

/-- A text is read as a template exactly when it is made of pieces that derive the nodes of the
template. -/
theorem read_eq_ok_iff (text : String) (template : Template) :
    Template.read text = .ok template
      ↔ ∃ ps n, Lexes text.toList ps ∧ Content 0 ps template.nodes n :=
  read_eq_ok.trans readTemplate_eq_ok_iff

end SeededText
