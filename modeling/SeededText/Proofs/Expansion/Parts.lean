import SeededText.Proofs.Expansion.Bounds

/-!
# Parts of a template

An expansion walks a template from left to right, so what it has done with the first nodes of a
template does not change when others follow them.  What it does with the nodes that follow depends on
the first ones through the tally alone: through the uses of slots so far, the variables that were
reported, and the budget that is left.

If the two parts cannot use the same slot, then the uses and the reports of the first part are not
looked at in the second (`Moves.frame`).  And a smaller budget is not noticed as long as it is enough
for what the second part opens when it stands alone (`Moves.resume`).
-/

namespace SeededText

/-! ## 1. Slots that may be used -/

/-- The slot that is used for a node. -/
def Node.slot? : Node → Option Draw.Slot
  | .variable name => some (.variable name)
  | .optionGroup index _ => some (.optionGroup index)
  | .literal _ | .conditional .. => none

/-- An expansion may come to a node that the slot is used for: a variable of this name, or a group
with this number, in the template or in a value that it reaches. -/
def Request.MayUse (r : Request) (slot : Draw.Slot) : Prop :=
  ∃ node, r.Reaches node ∧ node.slot? = some slot

/-- The same request for other nodes. -/
def Request.on (r : Request) (nodes : List Node) : Request :=
  { r with template := ⟨nodes⟩ }

/-- The slots that may be used are the least set with those of the template's nodes that is closed
under those of its variables' values. -/
theorem Request.mayUse_least {r : Request} {P : Draw.Slot → Prop}
    (htemplate : ∀ slot ∈ r.template.visits.filterMap Node.slot?, P slot)
    (hvalues : ∀ name e value template, P (.variable name) → r.catalog.get? name = some e →
      value ∈ e.values → Template.read value.text = .ok template →
        ∀ slot ∈ template.visits.filterMap Node.slot?, P slot) {slot : Draw.Slot}
    (h : r.MayUse slot) : P slot := by
  obtain ⟨node, hreach, hslot⟩ := h
  induction hreach generalizing slot with
  | template hmem => exact htemplate slot (List.mem_filterMap.2 ⟨_, hmem, hslot⟩)
  | value _ hget hvalue hread hmem ih =>
    exact hvalues _ _ _ _ (ih rfl) hget hvalue hread slot (List.mem_filterMap.2 ⟨_, hmem, hslot⟩)

/-! ## 2. Tallies that are the same for some slots -/

/-- The slots have the same next keys in both tallies, and those that are variables were reported in
both or in neither. -/
structure Tally.SameFor (P : Draw.Slot → Prop) (tally tally' : Tally) : Prop where
  nextKey : ∀ slot, P slot → tally'.nextKey slot = tally.nextKey slot
  reported : ∀ name, P (.variable name) → (name ∈ tally'.reported ↔ name ∈ tally.reported)

/-- The same for some slots, with no more budget in the second tally. -/
structure Tally.Resumes (P : Draw.Slot → Prop) (tally tally' : Tally) : Prop
    extends tally.SameFor P tally' where
  budget : tally'.budget ≤ tally.budget

section

variable {P : Draw.Slot → Prop} {tally tally' after : Tally} {slot : Draw.Slot} {name : String}

protected theorem Tally.SameFor.refl (P : Draw.Slot → Prop) (tally : Tally) :
    tally.SameFor P tally :=
  ⟨fun _ _ => rfl, fun _ _ => Iff.rfl⟩

theorem Tally.SameFor.trans (h : tally.SameFor P tally') (h' : tally'.SameFor P after) :
    tally.SameFor P after :=
  ⟨fun slot hslot => (h'.nextKey slot hslot).trans (h.nextKey slot hslot),
    fun name hname => (h'.reported name hname).trans (h.reported name hname)⟩

theorem Tally.SameFor.use (h : tally.SameFor P tally') (slot : Draw.Slot) :
    (tally.use slot).SameFor P (tally'.use slot) where
  nextKey other hother := by rw [nextKey_use, nextKey_use, h.nextKey other hother]
  reported := h.reported

/-- A use of another slot. -/
theorem sameFor_use (tally : Tally) (hslot : ¬ P slot) : tally.SameFor P (tally.use slot) where
  nextKey other hother := by
    rw [nextKey_use, if_neg]
    rintro rfl
    exact hslot hother
  reported _ _ := Iff.rfl

/-- A report of another variable. -/
theorem sameFor_report (tally : Tally) (hname : ¬ P (.variable name)) :
    tally.SameFor P { tally with reported := name :: tally.reported } where
  nextKey _ _ := rfl
  reported other hother := by
    rw [List.mem_cons, or_iff_right]
    rintro rfl
    exact hname hother

theorem Tally.SameFor.report (h : tally.SameFor P tally') (name : String) :
    Tally.SameFor P { tally with reported := name :: tally.reported }
      { tally' with reported := name :: tally'.reported } where
  nextKey := h.nextKey
  reported other hother := by rw [List.mem_cons, List.mem_cons, h.reported other hother]

theorem Tally.SameFor.spend (h : tally.SameFor P tally') : tally.spend.SameFor P tally'.spend :=
  ⟨h.nextKey, h.reported⟩

theorem Tally.Resumes.use (h : tally.Resumes P tally') (slot : Draw.Slot) :
    (tally.use slot).Resumes P (tally'.use slot) :=
  ⟨h.toSameFor.use slot, h.budget⟩

end

/-! ## 3. What moves leave as it is -/

section

variable {P : Draw.Slot → Prop} {r : Request} {s : Setting} {level : Nat} {tally after : Tally}
  {name text : String} {node : Node} {events : Trace} {items : List Item} {start finish : Stage}

theorem Places.frame (h : Places s level tally name text events items after)
    (hname : ¬ P (.variable name)) : tally.SameFor P after := by
  cases h with
  | plain | closedAgain => exact .refl P tally
  | opened | invalid => exact ⟨fun _ _ => rfl, fun _ _ => Iff.rfl⟩
  | closed => exact sameFor_report tally hname

/-- A move changes the tally for the slot of its node alone. -/
theorem Move.frame (h : Move s level tally node events items after)
    (hnode : ∀ slot, node.slot? = some slot → ¬ P slot) : tally.SameFor P after := by
  cases h with
  | literal | thenBranch | elseBranch | malformed => exact .refl P tally
  | option | noOption | noValue => exact sameFor_use tally (hnode _ rfl)
  | value _ hplaces =>
    exact (sameFor_use tally (hnode _ rfl)).trans (hplaces.frame (hnode _ rfl))

/-- Moves leave the tally as it is for all slots that may not be used. -/
theorem Moves.frame (hcatalog : s.catalog = r.catalog) (h : Moves s start events finish)
    (hreach : r.ReachesAll (start.agenda.map Item.node)) (hP : ∀ slot, r.MayUse slot → ¬ P slot) :
    start.tally.SameFor P finish.tally := by
  induction h with
  | refl => exact .refl P _
  | move hmove _ ih =>
    have hfirst := hmove.frame fun slot hslot => hP slot ⟨_, hreach.head, hslot⟩
    exact hfirst.trans (ih (hmove.reaches_agenda hcatalog hreach))

end

/-! ## 4. Moves from another tally -/

section

variable {P : Draw.Slot → Prop} {r : Request} {s : Setting} {level : Nat}
  {tally tally' after : Tally} {name text : String} {node : Node} {events : Trace}
  {items : List Item} {start finish : Stage}

theorem Places.resume (h : Places s level tally name text events items after)
    (hname : P (.variable name)) (htally : tally.Resumes P tally')
    (hopenings : Trace.openings events ≤ tally'.budget) :
    ∃ after', Places s level tally' name text events items after' ∧ after.Resumes P after' := by
  have hbudget := htally.budget
  have hreported := htally.reported name hname
  cases h with
  | plain hmark => exact ⟨_, .plain hmark, htally⟩
  | opened hmark hlt hne hread =>
    -- one value is opened, so the second tally has budget for it
    have hpaid : 1 ≤ tally'.budget := hopenings
    refine ⟨_, .opened hmark hlt (Nat.ne_of_gt hpaid) hread, htally.toSameFor.spend, ?_⟩
    exact Nat.sub_le_sub_right hbudget 1
  | invalid hmark hlt hne hread =>
    have hpaid : 1 ≤ tally'.budget := hopenings
    refine ⟨_, .invalid hmark hlt (Nat.ne_of_gt hpaid) hread, htally.toSameFor.spend, ?_⟩
    exact Nat.sub_le_sub_right hbudget 1
  | closed hmark hlimit hfresh =>
    have hlimit' : s.maxLevel ≤ level ∨ tally'.budget = 0 := by omega
    refine ⟨_, .closed hmark hlimit' (mt hreported.1 hfresh), htally.toSameFor.report name, ?_⟩
    exact hbudget
  | closedAgain hmark hlimit hagain =>
    have hlimit' : s.maxLevel ≤ level ∨ tally'.budget = 0 := by omega
    exact ⟨_, .closedAgain hmark hlimit' (hreported.2 hagain), htally⟩

/-- A move from one tally is a move from another that is the same for the slot of its node and has
budget enough. -/
theorem Move.resume (h : Move s level tally node events items after)
    (hnode : ∀ slot, node.slot? = some slot → P slot) (htally : tally.Resumes P tally')
    (hopenings : Trace.openings events ≤ tally'.budget) :
    ∃ after', Move s level tally' node events items after' ∧ after.Resumes P after' := by
  cases h with
  | literal text => exact ⟨_, .literal text, htally⟩
  | thenBranch hc => exact ⟨_, .thenBranch hc, htally⟩
  | elseBranch hc => exact ⟨_, .elseBranch hc, htally⟩
  | malformed hc => exact ⟨_, .malformed hc, htally⟩
  | @option index _ _ hpick =>
    rw [← htally.nextKey (.optionGroup index) (hnode _ rfl)] at hpick ⊢
    exact ⟨_, .option hpick, htally.use _⟩
  | @noOption index _ hpick =>
    rw [← htally.nextKey (.optionGroup index) (hnode _ rfl)] at hpick ⊢
    exact ⟨_, .noOption hpick, htally.use _⟩
  | @noValue name _ hpick =>
    rw [← htally.nextKey (.variable name) (hnode _ rfl)] at hpick ⊢
    exact ⟨_, .noValue hpick, htally.use _⟩
  | @value name text placed items after hpick hplaces =>
    rw [← htally.nextKey (.variable name) (hnode _ rfl)] at hpick hopenings ⊢
    have hplaced : Trace.openings placed ≤ tally'.budget := by
      simpa [Trace.openings_cons, Trace.isOpening] using hopenings
    obtain ⟨after', hplaces', hafter⟩ := hplaces.resume (hnode _ rfl) (htally.use _) hplaced
    exact ⟨after', .value hpick hplaces', hafter⟩

/-- Moves from one tally are moves from another that is the same for all slots they may use and has
budget for all that they open. -/
theorem Moves.resume (hcatalog : s.catalog = r.catalog) (h : Moves s start events finish)
    (hreach : r.ReachesAll (start.agenda.map Item.node))
    (htally : start.tally.Resumes r.MayUse tally') (hopenings : Trace.openings events ≤ tally'.budget) :
    ∃ after', Moves s ⟨start.agenda, tally'⟩ events ⟨finish.agenda, after'⟩ ∧
      finish.tally.Resumes r.MayUse after' := by
  induction h generalizing tally' with
  | refl start => exact ⟨tally', .refl _, htally⟩
  | @move level node agenda items tally after events later finish hmove _ ih =>
    rw [Trace.openings_append] at hopenings
    have hnode : ∀ slot, node.slot? = some slot → r.MayUse slot :=
      fun slot hslot => ⟨node, hreach.head, hslot⟩
    obtain ⟨middle, hmove', hmiddle⟩ := hmove.resume hnode htally (by omega)
    have hspent := (hmove'.accounts hcatalog hreach.head).openings
    obtain ⟨after', hlater, hafter⟩ := ih (hmove.reaches_agenda hcatalog hreach) hmiddle (by omega)
    exact ⟨after', .move hmove' hlater, hafter⟩

end

/-! ## 5. Variations -/

/-- A variation and then another: their texts and their problems one after another. -/
instance : Append Variation where
  append first second := ⟨first.text ++ second.text, first.problems ++ second.problems⟩

/-- The variation that a trace reads as. -/
def Variation.ofTrace (trace : Trace) : Variation :=
  ⟨trace.text, trace.problems⟩

theorem ofTrace_append (before after : Trace) :
    Variation.ofTrace (before ++ after) = Variation.ofTrace before ++ Variation.ofTrace after := by
  rw [Variation.ofTrace, Trace.text_append, Trace.problems_append]
  rfl

section

variable (r : Request) (limits : Limits) (seed : String) (index : Nat) (before after : List Node)

/-- The trace of two parts is that of the first, and then that of the second from the tally that the
first one leaves. -/
theorem exists_trace_append : ∃ tally later finish, finish.agenda = [] ∧
    Moves (r.setting limits seed index) ((r.on before).start limits)
      ((r.on before).trace limits seed index) ⟨[], tally⟩ ∧
    Moves (r.setting limits seed index) ⟨atLevel 0 after, tally⟩ later finish ∧
    (r.on (before ++ after)).trace limits seed index
      = (r.on before).trace limits seed index ++ later := by
  have hexpand := fun name =>
    expandVariable_performs (s := r.setting limits seed index) _ (Nat.zero_add _) name
  refine ⟨_, _, _, rfl, walkNodes_performs hexpand before (.start limits.maxExpansions),
    walkNodes_performs hexpand after _, ?_⟩
  show (walkNodes _ _ (before ++ after)).events _ = _
  rw [walkNodes_append, Step.events_andThen]
  rfl

/-- What is made of a template begins with what is made of its first nodes alone.  If no slot may be
used both by the first nodes and by those that follow, and the budget is enough for all values that
the two open when each stands alone, then the rest is what is made of the others alone. -/
theorem variation_append :
    (∃ rest, (r.on (before ++ after)).variation limits seed index
      = (r.on before).variation limits seed index ++ rest) ∧
    ((∀ slot, (r.on before).MayUse slot → ¬ (r.on after).MayUse slot) →
      ((r.on before).trace limits seed index).openings
        + ((r.on after).trace limits seed index).openings ≤ limits.maxExpansions →
      (r.on (before ++ after)).variation limits seed index
        = (r.on before).variation limits seed index
          ++ (r.on after).variation limits seed index) := by
  obtain ⟨tally, later, finish, hend, hbefore, hafter, htrace⟩ :=
    exists_trace_append r limits seed index before after
  have hvariation : (r.on (before ++ after)).variation limits seed index
      = (r.on before).variation limits seed index ++ Variation.ofTrace later := by
    show Variation.ofTrace _ = Variation.ofTrace _ ++ _
    rw [htrace, ofTrace_append]
  refine ⟨⟨_, hvariation⟩, fun hapart hbudget => ?_⟩
  have hreach := reachesAll_start (r.on before) limits
  have hsame := hbefore.frame (P := (r.on after).MayUse) rfl hreach hapart
  have hleft : ((r.on before).trace limits seed index).openings + tally.budget
      = limits.maxExpansions := (hbefore.accounts rfl hreach).openings
  obtain ⟨alone, halone, hmoves⟩ := exists_moves (r.on after) limits seed index
  have hresumes : Tally.Resumes (r.on after).MayUse (.start limits.maxExpansions) tally :=
    ⟨hsame, Nat.le_of_add_left_le (Nat.le_of_eq hleft)⟩
  obtain ⟨after', hresumed, -⟩ := hmoves.resume rfl (reachesAll_start (r.on after) limits) hresumes
    (by omega)
  have hlater : (r.on after).trace limits seed index = later :=
    (hresumed.unique hafter halone hend).1
  rw [hvariation, ← hlater]
  rfl

end

/-- Wares and beasts, which have nothing to do with each other. -/
def bazaar : Request where
  template := ⟨[]⟩
  catalog := ((Catalog.empty.insertValid
    ⟨"metal", none, [⟨"\x7b\x7bshade\x7d\x7d gold", 3, none⟩]⟩ (by decide)).insertValid
    ⟨"shade", none, [⟨"dark", 1, none⟩]⟩ (by decide)).insertValid
    ⟨"beast", none, [⟨"\x7b\x7b#if time == night\x7d\x7dgrey \x7b\x7b/if\x7d\x7dwolf", 1, none⟩]⟩
      (by decide)
  context := ⟨[("time", .text "night")]⟩

def wares : List Node :=
  [.variable "metal", .optionGroup 0 [⟨"T", none, [.literal " and ", .variable "metal"]⟩]]

def beasts : List Node :=
  [.variable "beast", .optionGroup 1 [⟨"T", none, [.variable "beast", .variable "lair"]⟩]]

theorem mayUse_wares {slot : Draw.Slot} (h : (bazaar.on wares).MayUse slot) :
    slot ∈ [.variable "metal", .variable "shade", .optionGroup 0] := by
  have hmetal : Template.read "\x7b\x7bshade\x7d\x7d gold"
      = .ok ⟨[.variable "shade", .literal " gold"]⟩ := by decide +kernel
  have hdark : Template.read "dark" = .ok ⟨[.literal "dark"]⟩ := by decide +kernel
  refine Request.mayUse_least (P := (· ∈ [.variable "metal", .variable "shade", .optionGroup 0]))
    (by decide) ?_ h
  intro name e value template hname hget hvalue hread
  obtain rfl | rfl : name = "metal" ∨ name = "shade" := by simpa using hname
  · cases hget
    obtain rfl := List.mem_singleton.1 hvalue
    cases hmetal.symm.trans hread
    decide
  · cases hget
    obtain rfl := List.mem_singleton.1 hvalue
    cases hdark.symm.trans hread
    decide

theorem mayUse_beasts {slot : Draw.Slot} (h : (bazaar.on beasts).MayUse slot) :
    slot ∈ [.variable "beast", .variable "lair", .optionGroup 1] := by
  have hbeast : Template.read "\x7b\x7b#if time == night\x7d\x7dgrey \x7b\x7b/if\x7d\x7dwolf"
      = .ok ⟨[.conditional "time == night" [.literal "grey "] none, .literal "wolf"]⟩ := by
        decide +kernel
  refine Request.mayUse_least (P := (· ∈ [.variable "beast", .variable "lair", .optionGroup 1]))
    (by decide) ?_ h
  intro name e value template hname hget hvalue hread
  obtain rfl | rfl : name = "beast" ∨ name = "lair" := by simpa using hname
  · cases hget
    obtain rfl := List.mem_singleton.1 hvalue
    cases hbeast.symm.trans hread
    decide
  · cases hget

/-- The budget is just what the two parts open. -/
theorem variation_append_bazaar :
    (∀ slot, (bazaar.on wares).MayUse slot → ¬ (bazaar.on beasts).MayUse slot) ∧
    ((bazaar.on wares).trace ⟨5, 100, 4⟩ "seed" 0).openings
      + ((bazaar.on beasts).trace ⟨5, 100, 4⟩ "seed" 0).openings = 4 ∧
    (bazaar.on (wares ++ beasts)).variation ⟨5, 100, 4⟩ "seed" 0
      = (bazaar.on wares).variation ⟨5, 100, 4⟩ "seed" 0
        ++ (bazaar.on beasts).variation ⟨5, 100, 4⟩ "seed" 0 := by
  have hapart : ∀ slot, (bazaar.on wares).MayUse slot → ¬ (bazaar.on beasts).MayUse slot := by
    intro slot hwares hbeasts
    obtain rfl | rfl | rfl : slot = .variable "metal" ∨ slot = .variable "shade" ∨
        slot = .optionGroup 0 := by simpa using mayUse_wares hwares
    · exact absurd (mayUse_beasts hbeasts) (by decide)
    · exact absurd (mayUse_beasts hbeasts) (by decide)
    · exact absurd (mayUse_beasts hbeasts) (by decide)
  have hopenings : ((bazaar.on wares).trace ⟨5, 100, 4⟩ "seed" 0).openings
      + ((bazaar.on beasts).trace ⟨5, 100, 4⟩ "seed" 0).openings = 4 := by decide +kernel
  refine ⟨hapart, hopenings, ?_⟩
  exact (variation_append bazaar ⟨5, 100, 4⟩ "seed" 0 wares beasts).2 hapart (Nat.le_of_eq hopenings)

end SeededText
