import SeededText.Proofs.Expansion.Moves
import SeededText.Proofs.Template.Shape

/-!
# A variable and its only value

A variable whose entry has one value without a condition always has that value's text.  So its nodes
may as well stand in the template from the start.  The two expansions are not the same: the first
makes moves for the variable that the second does not make, it spends more of its budget and walks
the nodes of the value one level deeper, and from then on it counts the uses of the variable
differently.

But the second is never nearer to a limit than the first, and its other keys are the same.  That is
what `Tally.Spares` says of the tallies and `Inlines` of the agendas, and every move of the first is
matched by moves of the second that read alike.
-/

namespace SeededText

/-! ## 1. Inlining -/

mutual

/-- What stands for a node when the fragment stands for the variable `v`. -/
def Node.inline (v : String) (fragment : List Node) : Node → List Node
  | .literal text => [.literal text]
  | .variable name => if name = v then fragment else [.variable name]
  | .conditional condition thenBranch none =>
    [.conditional condition (Node.inlineList v fragment thenBranch) none]
  | .conditional condition thenBranch (some elseBranch) =>
    [.conditional condition (Node.inlineList v fragment thenBranch)
      (some (Node.inlineList v fragment elseBranch))]
  | .optionGroup index options => [.optionGroup index (Node.inlineChoices v fragment options)]

def Node.inlineList (v : String) (fragment : List Node) : List Node → List Node
  | [] => []
  | node :: nodes => node.inline v fragment ++ Node.inlineList v fragment nodes

def Node.inlineChoices (v : String) (fragment : List Node) :
    List (Choice Node) → List (Choice Node)
  | [] => []
  | ⟨title, condition, body⟩ :: options =>
    ⟨title, condition, Node.inlineList v fragment body⟩ :: Node.inlineChoices v fragment options

end

/-- The template with every reference to `v` replaced by the fragment's nodes. -/
def Template.inline (template : Template) (v : String) (fragment : Template) : Template :=
  ⟨Node.inlineList v fragment.nodes template.nodes⟩

section

variable {v : String} {fragment : List Node}

theorem inline_conditional (condition : String) (thenBranch : List Node)
    (elseBranch : Option (List Node)) :
    (Node.conditional condition thenBranch elseBranch).inline v fragment
      = [.conditional condition (Node.inlineList v fragment thenBranch)
          (elseBranch.map (Node.inlineList v fragment))] := by
  cases elseBranch <;> rfl

theorem getD_map_inlineList (elseBranch : Option (List Node)) :
    (elseBranch.map (Node.inlineList v fragment)).getD []
      = Node.inlineList v fragment (elseBranch.getD []) := by
  cases elseBranch <;> rfl

def Choice.inline (v : String) (fragment : List Node) (option : Choice Node) : Choice Node :=
  { option with body := Node.inlineList v fragment option.body }

theorem inlineChoices_eq_map (options : List (Choice Node)) :
    Node.inlineChoices v fragment options = options.map (Choice.inline v fragment) := by
  induction options with
  | nil => rfl
  | cons option options ih => exact congrArg (_ :: ·) ih

theorem condition_inlineChoices (v : String) (fragment : List Node) (options : List (Choice Node)) :
    (Node.inlineChoices v fragment options).map Choice.condition
      = options.map Choice.condition := by
  rw [inlineChoices_eq_map, List.map_map]
  rfl

theorem pick?_inlineChoices (v : String) (fragment : List Node) (s : Setting) (key : Draw.Key)
    (options : List (Choice Node)) : s.pick? key Choice.condition (Node.inlineChoices v fragment options)
      = (s.pick? key Choice.condition options).map (Choice.inline v fragment) := by
  rw [inlineChoices_eq_map, pick?_map]
  rfl

end

/-! ## 2. Traces, tallies and agendas side by side -/

/-- The events read alike: they write the same text and record the same problems. -/
structure Trace.Alike (events events' : Trace) : Prop where
  text : events'.text = events.text
  problems : events'.problems = events.problems

namespace Trace.Alike

variable {events events' later later' : Trace}

protected theorem refl (events : Trace) : events.Alike events :=
  ⟨rfl, rfl⟩

theorem append (h : events.Alike events') (h' : later.Alike later') :
    Trace.Alike (events ++ later) (events' ++ later') := by
  constructor
  · rw [Trace.text_append, Trace.text_append, h.text, h'.text]
  · rw [Trace.problems_append, Trace.problems_append, h.problems, h'.problems]

/-- Which keys are used and drawn with is not read. -/
theorem use (h : events.Alike events') (key key' : Draw.Key) (ps : List Problem) :
    Trace.Alike (.use key :: (ps.map .problem ++ events))
      (.use key' :: (ps.map .problem ++ events')) := by
  have hpast : Trace.Alike (.use key :: ps.map .problem) (.use key' :: ps.map .problem) :=
    ⟨rfl, rfl⟩
  exact hpast.append h

theorem draw (h : events.Alike events') (key key' : Draw.Key) :
    Trace.Alike (.draw key :: events) (.draw key' :: events') := by
  have hpast : Trace.Alike [.draw key] [.draw key'] := ⟨rfl, rfl⟩
  exact hpast.append h

end Trace.Alike

/-- The second tally has spent no more than the first, nothing was reported in either, and the keys
of all slots but that of `v` are the same. -/
structure Tally.Spares (v : String) (tally tally' : Tally) : Prop where
  budget : tally.budget ≤ tally'.budget
  nextKey : ∀ slot, slot ≠ .variable v → tally'.nextKey slot = tally.nextKey slot
  reported : tally.reported = []
  reported' : tally'.reported = []

section

variable {v : String} {tally tally' : Tally}

theorem Tally.Spares.use (h : tally.Spares v tally') (slot : Draw.Slot) :
    (tally.use slot).Spares v (tally'.use slot) where
  budget := h.budget
  nextKey other hother := by rw [nextKey_use, nextKey_use, h.nextKey other hother]
  reported := h.reported
  reported' := h.reported'

/-- A use of `v` in the first alone. -/
theorem Tally.Spares.useFirst (h : tally.Spares v tally') :
    (tally.use (.variable v)).Spares v tally' where
  budget := h.budget
  nextKey other hother := by rw [nextKey_use, if_neg hother.symm, h.nextKey other hother]
  reported := h.reported
  reported' := h.reported'

theorem Tally.Spares.spend (h : tally.Spares v tally') : tally.spend.Spares v tally'.spend where
  budget := Nat.sub_le_sub_right h.budget 1
  nextKey := h.nextKey
  reported := h.reported
  reported' := h.reported'

theorem Tally.Spares.spendFirst (h : tally.Spares v tally') : tally.spend.Spares v tally' where
  budget := Nat.le_trans (Nat.sub_le _ _) h.budget
  nextKey := h.nextKey
  reported := h.reported
  reported' := h.reported'

end

/-- The second agenda is the first with some nodes inlined, all of them on the same level or a lower
one. -/
inductive Inlines (v : String) (fragment : List Node) : List Item → List Item → Prop where
  | nil : Inlines v fragment [] []
  | keep {level level' : Nat} (node : Node) {agenda agenda' : List Item} : level' ≤ level →
      Inlines v fragment agenda agenda' →
        Inlines v fragment (⟨level, node⟩ :: agenda) (⟨level', node⟩ :: agenda')
  | inline {level level' : Nat} (node : Node) {agenda agenda' : List Item} : level' ≤ level →
      Inlines v fragment agenda agenda' →
        Inlines v fragment (⟨level, node⟩ :: agenda)
          (atLevel level' (node.inline v fragment) ++ agenda')

section

variable {v : String} {fragment : List Node} {level level' : Nat}
  {agenda agenda' later later' : List Item}

theorem Inlines.append (h : Inlines v fragment agenda agenda')
    (h' : Inlines v fragment later later') :
    Inlines v fragment (agenda ++ later) (agenda' ++ later') := by
  induction h with
  | nil => exact h'
  | keep node hlevel _ ih => exact .keep node hlevel ih
  | inline node hlevel _ ih =>
    rw [List.append_assoc]
    exact .inline node hlevel ih

theorem inlines_lower (hlevel : level' ≤ level) (nodes : List Node) :
    Inlines v fragment (atLevel level nodes) (atLevel level' nodes) := by
  induction nodes with
  | nil => exact .nil
  | cons node nodes ih => exact .keep node hlevel ih

theorem inlines_inlineList (hlevel : level' ≤ level) (nodes : List Node) :
    Inlines v fragment (atLevel level nodes)
      (atLevel level' (Node.inlineList v fragment nodes)) := by
  induction nodes with
  | nil => exact .nil
  | cons node nodes ih =>
    have hnodes : atLevel level' (Node.inlineList v fragment (node :: nodes))
        = atLevel level' (node.inline v fragment)
          ++ atLevel level' (Node.inlineList v fragment nodes) := List.map_append
    rw [hnodes]
    exact .inline node hlevel ih

end

/-! ## 3. Moves side by side -/

/-- The variable has one text, whatever the draw is, and that text is a template. -/
structure Setting.Sole (s : Setting) (v text : String) (fragment : Template) : Prop where
  pickText : ∀ key, s.pickText key v = .ok text
  malformed : s.malformed v = []
  read : Template.read text = .ok fragment

/-- Moves from the stage match a move with the events, the items and the tally after it. -/
def Stage.Matches (s : Setting) (v : String) (fragment : Template) (stage : Stage) (events : Trace)
    (items : List Item) (after : Tally) : Prop :=
  ∃ events' items' after', Moves s stage events' ⟨items', after'⟩ ∧ events.Alike events' ∧
    Inlines v fragment.nodes items items' ∧ after.Spares v after'

section

variable {s : Setting} {v whole name text : String} {fragment : Template} {level level' : Nat}
  {tally tally' after after' : Tally} {node node' : Node} {events events' : Trace}
  {items items' agenda' : List Item} {start finish : Stage}

theorem Move.matches (h : Move s level' tally' node' events' items' after')
    (halike : events.Alike events') (hitems : Inlines v fragment.nodes items items')
    (hafter : after.Spares v after') :
    Stage.Matches s v fragment ⟨[⟨level', node'⟩], tally'⟩ events items after := by
  have hmoves := Moves.move h (.refl ⟨items' ++ [], after'⟩)
  rw [List.append_nil, List.append_nil] at hmoves
  exact ⟨events', items', after', hmoves, halike, hitems, hafter⟩

/-- The same text is picked for a variable on both sides. -/
theorem Setting.Sole.pickText_eq (hsole : s.Sole v whole fragment) (htally : tally.Spares v tally')
    (name : String) : s.pickText (tally'.nextKey (.variable name)) name
      = s.pickText (tally.nextKey (.variable name)) name := by
  by_cases hname : name = v
  · rw [hname, hsole.pickText, hsole.pickText]
  · rw [htally.nextKey (.variable name) (by simpa using hname)]

/-- A value that takes its place without a report does so on every lower level. -/
theorem Places.lower (h : Places s level tally name text events items after)
    (htame : Tame events.problems) (hlevel : level' ≤ level) (htally : tally.Spares v tally') :
    ∃ events' items' after', Places s level' tally' name text events' items' after' ∧
      events.Alike events' ∧ Inlines v fragment.nodes items items' ∧ after.Spares v after' := by
  have hbudget := htally.budget
  cases h with
  | plain hmark => exact ⟨_, _, _, .plain hmark, .refl _, .nil, htally⟩
  | opened hmark hlt hne hread =>
    refine ⟨_, _, _, .opened hmark (by omega) (by omega) hread, ⟨rfl, rfl⟩, ?_, htally.spend⟩
    exact inlines_lower (Nat.succ_le_succ hlevel) _
  | invalid hmark hlt hne hread =>
    exact ⟨_, _, _, .invalid hmark (by omega) (by omega) hread, ⟨rfl, rfl⟩, .nil, htally.spend⟩
  | closed => exact nomatch htame _ List.mem_cons_self
  | closedAgain _ _ hname =>
    rw [htally.reported] at hname
    cases hname

theorem tame_of_use {key : Draw.Key} {ps : List Problem}
    (h : Tame (Trace.problems (.use key :: (ps.map .problem ++ .draw key :: events)))) :
    Tame events.problems := by
  simp only [Trace.problems_cons, Trace.problem?, Trace.problems_append, tame_append] at h
  exact h.2.2.2

/-- A node is matched by itself on a lower level. -/
theorem Move.lower (hsole : s.Sole v whole fragment)
    (h : Move s level tally node events items after) (htame : Tame events.problems)
    (hlevel : level' ≤ level) (htally : tally.Spares v tally') :
    Stage.Matches s v fragment ⟨[⟨level', node⟩], tally'⟩ events items after := by
  cases h with
  | literal text => exact (Move.literal text).matches (.refl _) .nil htally
  | thenBranch hc => exact (Move.thenBranch hc).matches (.refl _) (inlines_lower hlevel _) htally
  | elseBranch hc => exact (Move.elseBranch hc).matches (.refl _) (inlines_lower hlevel _) htally
  | malformed hc => exact (Move.malformed hc).matches (.refl _) (inlines_lower hlevel _) htally
  | @option index _ _ hpick =>
    rw [← htally.nextKey (.optionGroup index) nofun] at hpick ⊢
    exact (Move.option hpick).matches (.refl _) (inlines_lower hlevel _) (htally.use _)
  | @noOption index _ hpick =>
    rw [← htally.nextKey (.optionGroup index) nofun] at hpick ⊢
    exact (Move.noOption hpick).matches (.refl _) .nil (htally.use _)
  | @noValue name _ hpick =>
    rw [← hsole.pickText_eq htally name] at hpick
    exact (Move.noValue hpick).matches ((Trace.Alike.refl _).use _ _ _) .nil (htally.use _)
  | @value name _ _ _ _ hpick hplaces =>
    rw [← hsole.pickText_eq htally name] at hpick
    obtain ⟨events', items', after', hplaces, halike, hitems, hafter⟩ :=
      hplaces.lower (tame_of_use htame) hlevel (htally.use _)
    exact (Move.value hpick hplaces).matches ((halike.draw _ _).use _ _ _) hitems hafter

/-- The variable is matched by its fragment, without a move if its text was opened. -/
theorem Move.matches_fragment (hsole : s.Sole v whole fragment)
    (h : Move s level tally (.variable v) events items after) (htame : Tame events.problems)
    (hlevel : level' ≤ level) (htally : tally.Spares v tally') :
    Stage.Matches s v fragment ⟨atLevel level' fragment.nodes, tally'⟩ events items after := by
  cases h with
  | noValue hpick =>
    rw [hsole.pickText] at hpick
    cases hpick
  | value hpick hplaces =>
    rw [hsole.pickText] at hpick
    cases hpick
    have hread := hsole.read
    have htame := tame_of_use htame
    rw [hsole.malformed]
    cases hplaces with
    | plain hmark =>
      rw [read_of_no_mark hmark] at hread
      cases hread
      unfold plainNodes
      split
      · next hempty =>
        rw [hempty]
        exact ⟨[], [], tally', .refl _, ⟨rfl, rfl⟩, .nil, htally.useFirst⟩
      · exact (Move.literal whole).matches ⟨rfl, rfl⟩ .nil htally.useFirst
    | opened _ _ _ hopened =>
      rw [hread] at hopened
      cases hopened
      refine ⟨[], _, tally', .refl _, ⟨rfl, rfl⟩, ?_, htally.useFirst.spendFirst⟩
      exact inlines_lower (Nat.le_succ_of_le hlevel) _
    | invalid _ _ _ hfault =>
      rw [hread] at hfault
      cases hfault
    | closed => exact nomatch htame _ List.mem_cons_self
    | closedAgain _ _ hname =>
      rw [htally.useFirst.reported] at hname
      cases hname

/-- A node is matched by what is inlined for it. -/
theorem Move.matches_inline (hsole : s.Sole v whole fragment)
    (h : Move s level tally node events items after) (htame : Tame events.problems)
    (hlevel : level' ≤ level) (htally : tally.Spares v tally') :
    Stage.Matches s v fragment ⟨atLevel level' (node.inline v fragment.nodes), tally'⟩ events items
      after := by
  cases node with
  | literal text => exact h.lower hsole htame hlevel htally
  | «variable» name =>
    rw [Node.inline]
    split
    · next hname =>
      rw [hname] at h
      exact h.matches_fragment hsole htame hlevel htally
    · exact h.lower hsole htame hlevel htally
  | conditional condition thenBranch elseBranch =>
    rw [inline_conditional]
    have helse : Inlines v fragment.nodes (atLevel level (elseBranch.getD []))
        (atLevel level' ((elseBranch.map (Node.inlineList v fragment.nodes)).getD [])) := by
      rw [getD_map_inlineList]
      exact inlines_inlineList hlevel _
    cases h with
    | thenBranch hc =>
      exact (Move.thenBranch hc).matches (.refl _) (inlines_inlineList hlevel _) htally
    | elseBranch hc => exact (Move.elseBranch hc).matches (.refl _) helse htally
    | malformed hc => exact (Move.malformed hc).matches (.refl _) helse htally
  | optionGroup index options =>
    rw [Node.inline]
    have hkey := htally.nextKey (.optionGroup index) nofun
    have hpicked := pick?_inlineChoices v fragment.nodes s (tally.nextKey (.optionGroup index))
      options
    cases h with
    | option hpick =>
      rw [hpick, ← hkey] at hpicked
      refine (Move.option hpicked).matches ?_ (inlines_inlineList hlevel _) (htally.use _)
      rw [condition_inlineChoices, hkey]
      exact .refl _
    | noOption hpick =>
      rw [hpick, ← hkey] at hpicked
      refine (Move.noOption hpicked).matches ?_ .nil (htally.use _)
      rw [condition_inlineChoices, hkey]
      exact .refl _

/-- Moves to the end are matched, from an agenda with nodes inlined, by moves to the end. -/
theorem Moves.matches (hsole : s.Sole v whole fragment) (h : Moves s start events finish)
    (hend : finish.agenda = []) (htame : Tame events.problems)
    (hagenda : Inlines v fragment.nodes start.agenda agenda')
    (htally : start.tally.Spares v tally') :
    ∃ events' finish', finish'.agenda = [] ∧ Moves s ⟨agenda', tally'⟩ events' finish' ∧
      events.Alike events' := by
  induction h generalizing agenda' tally' with
  | refl start =>
    rw [hend] at hagenda
    cases hagenda
    exact ⟨[], _, rfl, .refl _, .refl _⟩
  | @move level node agenda items tally after events later finish hmove _ ih =>
    rw [Trace.problems_append, tame_append] at htame
    obtain ⟨first, rest, rfl, hrest, hmatches⟩ : ∃ first rest, agenda' = first ++ rest ∧
        Inlines v fragment.nodes agenda rest ∧
          Stage.Matches s v fragment ⟨first, tally'⟩ events items after := by
      cases hagenda with
      | keep _ hlevel hrest =>
        exact ⟨[_], _, rfl, hrest, hmove.lower hsole htame.1 hlevel htally⟩
      | inline _ hlevel hrest =>
        exact ⟨_, _, rfl, hrest, hmove.matches_inline hsole htame.1 hlevel htally⟩
    obtain ⟨events', items', after', hmoves, halike, hitems, hafter⟩ := hmatches
    obtain ⟨later', finish', hend', hlater, halike'⟩ :=
      ih hend htame.2 (hitems.append hrest) hafter
    exact ⟨events' ++ later', finish', hend', (hmoves.before rest).trans hlater,
      halike.append halike'⟩

end

/-! ## 4. Variations -/

theorem sole_of_get? {s : Setting} {v text : String} {weight : Float} {e : Entry}
    {fragment : Template} (hget : s.catalog.get? v = some e)
    (hvalues : e.values = [⟨text, weight, none⟩]) (hread : Template.read text = .ok fragment) :
    s.Sole v text fragment where
  pickText key := by
    rcases pick_eligible hget (key.material s.material) with
      ⟨hnone, -⟩ | ⟨value, hmem, -, hpick⟩
    · rw [hvalues] at hnone
      exact absurd admits_none (hnone _ List.mem_cons_self)
    · rw [hvalues, List.mem_singleton] at hmem
      rw [hmem] at hpick
      exact hpick
  malformed := by
    rw [Setting.malformed, malformed_eligible hget, hvalues]
    rfl
  read := hread

/-- If a variable has one value, without a condition, and this value is a template, then the value's
nodes may stand in the place of the variable everywhere in a template: a variation in which no
variable runs away has the same text and the same problems. -/
theorem variation_inline (r : Request) (limits : Limits) (seed : String) (index : Nat)
    {v text : String} {weight : Float} {e : Entry} {fragment : Template}
    (hget : r.catalog.get? v = some e) (hvalues : e.values = [⟨text, weight, none⟩])
    (hread : Template.read text = .ok fragment)
    (hcalm : ∀ name limit,
      .maxRecursionExceeded name limit ∉ (r.variation limits seed index).problems) :
    ({ r with template := r.template.inline v fragment } : Request).variation limits seed index
      = r.variation limits seed index := by
  have htame : Tame (r.trace limits seed index).problems := by
    intro p hp
    cases p with
    | maxRecursionExceeded name limit => exact absurd hp (hcalm name limit)
    | malformedCondition | unknownVariable | noEligibleValue | noEligibleOption
      | invalidValueTemplate => rfl
  have hsole : (r.setting limits seed index).Sole v text fragment :=
    sole_of_get? hget hvalues hread
  obtain ⟨finish, hend, hmoves⟩ := exists_moves r limits seed index
  have hspares : (r.start limits).tally.Spares v (r.start limits).tally :=
    ⟨Nat.le_refl _, fun _ _ => rfl, rfl, rfl⟩
  obtain ⟨events, finish', hend', hmoves', halike⟩ := hmoves.matches hsole hend htame
    (inlines_inlineList (Nat.le_refl 0) r.template.nodes) hspares
  have htrace : Request.trace { r with template := r.template.inline v fragment } limits seed index
      = events := by
    rw [trace_eq_iff_moves]
    exact ⟨finish', hend', hmoves'⟩
  rw [Request.variation, Request.variation, htrace, halike.text, halike.problems]

theorem valid_gold :
    Entry.Valid ⟨"metal", none, [⟨"\x7b\x7bshade\x7d\x7d gold", 2, none⟩]⟩ := by
  decide

/-- A variable whose only value comes back to it through another variable. -/
def alloy : Request where
  template := ⟨[.variable "metal", .conditional "level > 5" [.variable "metal"] none,
    .optionGroup 0 [⟨"T", none, [.variable "shade", .variable "ore"]⟩]]⟩
  catalog := (Catalog.empty.insertValid
    ⟨"metal", none, [⟨"\x7b\x7bshade\x7d\x7d gold", 2, none⟩]⟩ valid_gold).insertValid
    ⟨"shade", none, [⟨"dark", 1, none⟩,
      ⟨"red \x7b\x7b#if level < 5\x7d\x7d\x7b\x7bmetal\x7d\x7d\x7b\x7b/if\x7d\x7d", 1, none⟩]⟩
      (by decide)
  context := ⟨[("level", .number 8)]⟩

theorem variation_inline_alloy :
    ({ alloy with
        template := alloy.template.inline "metal" ⟨[.variable "shade", .literal " gold"]⟩ } :
          Request).variation .default "seed" 1
      = alloy.variation .default "seed" 1 := by
  have hread : Template.read "\x7b\x7bshade\x7d\x7d gold"
      = .ok ⟨[.variable "shade", .literal " gold"]⟩ := by decide +kernel
  have hproblems : (alloy.variation .default "seed" 1).problems = [.unknownVariable "ore"] := by
    decide +kernel
  refine variation_inline alloy .default "seed" 1 rfl rfl hread ?_
  intro name limit
  simp [hproblems]

end SeededText
