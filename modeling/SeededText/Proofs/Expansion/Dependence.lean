import SeededText.Proofs.Expansion.Reach

/-!
# What a variation depends on

Two requests agree when they have the same template, the same entry or none for every name that is
reached, and the same value or none for the key of every condition that is asked and can be read.
A move of the one is then a move of the other, so both have the same traces.
-/

namespace SeededText

/-! ## 1. Agreement -/

/-- The requests give the same answers to whatever an expansion of the first may ask. -/
structure Request.Agrees (r r' : Request) : Prop where
  template : r'.template = r.template
  catalog : ∀ name, r.Reaches (.variable name) → r'.catalog.get? name = r.catalog.get? name
  context : ∀ source condition, r.Asks source → Condition.read source = .ok condition →
    r'.context.get? condition.identifier = r.context.get? condition.identifier

theorem holds_congr {c : Condition} {context context' : Context}
    (h : context'.get? c.identifier = context.get? c.identifier) :
    c.holds context' = c.holds context := by
  rw [Condition.holds, Condition.holds, h]

theorem Request.Agrees.decide {r r' : Request} (h : r.Agrees r') {source : String}
    (hasks : r.Asks source) : decideCondition source r'.context = decideCondition source r.context := by
  unfold decideCondition
  cases hread : Condition.read source with
  | error e => rfl
  | ok c => exact congrArg Except.ok (holds_congr (h.context source c hasks hread))

theorem of_congr {α : Type} {context context' : Context} {conditionOf : α → Option String}
    {xs : List α} (h : ∀ x ∈ xs, ∀ source, conditionOf x = some source →
      decideCondition source context' = decideCondition source context) :
    Admission.of context' conditionOf xs = Admission.of context conditionOf xs := by
  induction xs with
  | nil => rfl
  | cons x xs ih =>
    have hrest := ih fun y hy => h y (List.mem_cons_of_mem x hy)
    rw [Admission.of, Admission.of, hrest]
    cases hx : conditionOf x with
    | none => rfl
    | some source =>
      dsimp only
      rw [h x List.mem_cons_self source hx]

section

variable {r r' : Request} {limits : Limits} {seed : String} {index : Nat}

theorem Request.Agrees.eligible (h : r.Agrees r') {name : String}
    (hreach : r.Reaches (.variable name)) :
    r'.catalog.eligible r'.context name = r.catalog.eligible r.context name := by
  unfold Catalog.eligible
  rw [h.catalog name hreach]
  cases hget : r.catalog.get? name with
  | none => rfl
  | some e =>
    have hadmission : e.admission r'.context = e.admission r.context :=
      of_congr fun value hmem source hcondition => h.decide (.value hreach hget hmem hcondition)
    dsimp only
    rw [hadmission]

theorem Request.Agrees.admission (h : r.Agrees r') {group : Nat} {options : List (Choice Node)}
    (hreach : r.Reaches (.optionGroup group options)) :
    Admission.of r'.context Choice.condition options
      = Admission.of r.context Choice.condition options :=
  of_congr fun _ hmem _ hcondition => h.decide (.option hreach hmem hcondition)

theorem Request.Agrees.pick? (h : r.Agrees r') {group : Nat} {options : List (Choice Node)}
    (hreach : r.Reaches (.optionGroup group options)) (key : Draw.Key) :
    (r'.setting limits seed index).pick? key Choice.condition options
      = (r.setting limits seed index).pick? key Choice.condition options := by
  simp only [Setting.pick?, Request.setting, h.admission hreach]

theorem Request.Agrees.unreadable (h : r.Agrees r') {group : Nat} {options : List (Choice Node)}
    (hreach : r.Reaches (.optionGroup group options)) :
    SeededText.unreadable r'.context (options.map Choice.condition)
      = SeededText.unreadable r.context (options.map Choice.condition) := by
  rw [← problems_of, ← problems_of, h.admission hreach]

theorem Request.Agrees.pickText (h : r.Agrees r') {name : String}
    (hreach : r.Reaches (.variable name)) (key : Draw.Key) :
    (r'.setting limits seed index).pickText key name
      = (r.setting limits seed index).pickText key name := by
  simp only [Setting.pickText, Request.setting, h.eligible hreach]

theorem Request.Agrees.malformed (h : r.Agrees r') {name : String}
    (hreach : r.Reaches (.variable name)) :
    (r'.setting limits seed index).malformed name = (r.setting limits seed index).malformed name := by
  simp only [Setting.malformed, Request.setting, h.eligible hreach]

/-! ## 2. Moves -/

variable {level : Nat} {tally after : Tally} {name text : String} {node : Node} {events : Trace}
  {items : List Item}

/-- Putting a value in its place depends on the nesting limit alone. -/
theorem Places.transfer {s s' : Setting} (h : Places s level tally name text events items after)
    (hlevel : s'.maxLevel = s.maxLevel) : Places s' level tally name text events items after := by
  cases h with
  | plain hmark => exact .plain hmark
  | opened hmark hlt hne hread => exact .opened hmark (hlevel ▸ hlt) hne hread
  | invalid hmark hlt hne hread => exact .invalid hmark (hlevel ▸ hlt) hne hread
  | closed hmark hlimit hname =>
    rw [← hlevel] at hlimit ⊢
    exact .closed hmark hlimit hname
  | closedAgain hmark hlimit hname => exact .closedAgain hmark (hlevel ▸ hlimit) hname

/-- A move of a reached node is the same move under the other request. -/
theorem Move.transfer (h : Move (r.setting limits seed index) level tally node events items after)
    (hagrees : r.Agrees r') (hreach : r.Reaches node) :
    Move (r'.setting limits seed index) level tally node events items after := by
  cases h with
  | literal text => exact .literal text
  | thenBranch hc => exact .thenBranch ((hagrees.decide (.conditional hreach)).trans hc)
  | elseBranch hc => exact .elseBranch ((hagrees.decide (.conditional hreach)).trans hc)
  | malformed hc => exact .malformed ((hagrees.decide (.conditional hreach)).trans hc)
  | option hpick =>
    have hmove : Move (r'.setting limits seed index) level tally _ _ _ _ :=
      .option ((hagrees.pick? hreach _).trans hpick)
    rwa [show (r'.setting limits seed index).context = r'.context from rfl,
      hagrees.unreadable hreach] at hmove
  | noOption hpick =>
    have hmove : Move (r'.setting limits seed index) level tally _ _ _ _ :=
      .noOption ((hagrees.pick? hreach _).trans hpick)
    rwa [show (r'.setting limits seed index).context = r'.context from rfl,
      hagrees.unreadable hreach] at hmove
  | noValue hpick =>
    rw [← hagrees.malformed hreach]
    exact .noValue ((hagrees.pickText hreach _).trans hpick)
  | value hpick hplaces =>
    rw [← hagrees.malformed hreach]
    exact .value ((hagrees.pickText hreach _).trans hpick) (hplaces.transfer rfl)

theorem Moves.transfer {start finish : Stage}
    (h : Moves (r.setting limits seed index) start events finish) (hagrees : r.Agrees r')
    (hreach : r.ReachesAll (start.agenda.map Item.node)) :
    Moves (r'.setting limits seed index) start events finish := by
  induction h with
  | refl => exact .refl _
  | @move level node agenda items tally after events later finish hmove _ ih =>
    exact .move (hmove.transfer hagrees hreach.head)
      (ih (hmove.reaches_agenda rfl hreach))

end

/-! ## 3. Variations -/

theorem trace_eq_of_agrees {r r' : Request} (h : r.Agrees r') (limits : Limits) (seed : String)
    (index : Nat) : r'.trace limits seed index = r.trace limits seed index := by
  obtain ⟨finish, hend, hmoves⟩ := exists_moves r limits seed index
  rw [trace_eq_iff_moves]
  refine ⟨finish, hend, ?_⟩
  have hstart : r'.start limits = r.start limits := by
    rw [Request.start, Request.start, h.template]
  rw [hstart]
  exact hmoves.transfer h (reachesAll_start r limits)

theorem variation_eq_of_agrees {r r' : Request} (h : r.Agrees r') (limits : Limits) (seed : String)
    (index : Nat) : r'.variation limits seed index = r.variation limits seed index := by
  rw [Request.variation, Request.variation, trace_eq_of_agrees h]

theorem Request.agrees_catalog {r : Request} {catalog : Catalog}
    (h : ∀ name, r.Reaches (.variable name) → catalog.get? name = r.catalog.get? name) :
    r.Agrees { r with catalog := catalog } :=
  ⟨rfl, h, fun _ _ _ _ => rfl⟩

theorem Request.agrees_context {r : Request} {context : Context}
    (h : ∀ source condition, r.Asks source → Condition.read source = .ok condition →
      context.get? condition.identifier = r.context.get? condition.identifier) :
    r.Agrees { r with context := context } :=
  ⟨rfl, fun _ _ => rfl, h⟩

/-- A variation depends on what its template can reach and ask alone.  So an entry that is inserted
or merged under a name that is not reached, and a value that is set for a key that is not asked for,
change nothing. -/
theorem variation_depends_on_reached (r : Request) (limits : Limits) (seed : String) (index : Nat) :
    (∀ r', r.Agrees r' → r'.variation limits seed index = r.variation limits seed index) ∧
    (∀ e catalog, r.catalog.insert e = .ok catalog → ¬ r.Reaches (.variable e.name) →
      ({ r with catalog := catalog } : Request).variation limits seed index
        = r.variation limits seed index) ∧
    (∀ other, (∀ e ∈ other.entries, ¬ r.Reaches (.variable e.name)) →
      ({ r with catalog := r.catalog.merge other } : Request).variation limits seed index
        = r.variation limits seed index) ∧
    ∀ key value, (∀ source condition, r.Asks source → Condition.read source = .ok condition →
        condition.identifier ≠ key) →
      ({ r with context := r.context.insert key value } : Request).variation limits seed index
        = r.variation limits seed index := by
  refine ⟨fun r' h => variation_eq_of_agrees h limits seed index, ?_, ?_, ?_⟩
  · intro e catalog hinsert hunreached
    obtain ⟨hvalid, rfl⟩ := Catalog.exists_valid_of_insert_eq_ok hinsert
    refine variation_eq_of_agrees (Request.agrees_catalog fun name hname => ?_) limits seed index
    have hne : e.name ≠ name := by
      rintro rfl
      exact hunreached hname
    rw [Catalog.get?_insertValid, if_neg hne]
  · intro other hunreached
    refine variation_eq_of_agrees (Request.agrees_catalog fun name hname => ?_) limits seed index
    have hnone : other.get? name = none := by
      rw [Catalog.get?, List.find?_eq_none]
      intro e he heq
      obtain rfl : e.name = name := by simpa using heq
      exact hunreached e he hname
    rw [Catalog.get?_merge, hnone, Option.none_or]
  · intro key value hunasked
    refine variation_eq_of_agrees (Request.agrees_context fun source c hasks hread => ?_) limits seed
      index
    rw [Context.get?_insert, if_neg fun heq => hunasked source c hasks hread heq]

/-- Two variables that come back to each other. -/
def roundabout : Request where
  template := ⟨[.variable "metal"]⟩
  catalog := (Catalog.empty.insertValid
    ⟨"metal", none, [⟨"\x7b\x7bshade\x7d\x7d gold", 2, none⟩]⟩ (by decide)).insertValid
    ⟨"shade", none, [⟨"dark \x7b\x7bmetal\x7d\x7d", 1, none⟩]⟩ (by decide)
  context := ⟨[]⟩

theorem reaches_roundabout {name : String} (h : roundabout.Reaches (.variable name)) :
    name = "metal" ∨ name = "shade" := by
  have hmetal : Template.read "\x7b\x7bshade\x7d\x7d gold"
      = .ok ⟨[.variable "shade", .literal " gold"]⟩ := by decide +kernel
  have hshade : Template.read "dark \x7b\x7bmetal\x7d\x7d"
      = .ok ⟨[.literal "dark ", .variable "metal"]⟩ := by decide +kernel
  refine Request.reaches_least (P := fun name => name = "metal" ∨ name = "shade") ?_ ?_ h
  · intro name hname
    left
    simpa [roundabout, Template.visits, Node.visitsList, Node.visits] using hname
  · rintro _ e value template inner (rfl | rfl) hget hvalue hread hinner
    · cases hget
      rw [List.mem_singleton] at hvalue
      rw [hvalue, hmetal] at hread
      cases hread
      right
      simpa [Template.visits, Node.visitsList, Node.visits] using hinner
    · cases hget
      rw [List.mem_singleton] at hvalue
      rw [hvalue, hshade] at hread
      cases hread
      left
      simpa [Template.visits, Node.visitsList, Node.visits] using hinner

theorem variation_depends_on_reached_roundabout :
    ∃ catalog, roundabout.catalog.insert ⟨"wood", none, [⟨"oak", 1, none⟩]⟩ = .ok catalog ∧
      ({ roundabout with catalog := catalog } : Request).variation .default "seed" 0
        = roundabout.variation .default "seed" 0 := by
  obtain ⟨catalog, hinsert⟩ :
      ∃ catalog, roundabout.catalog.insert ⟨"wood", none, [⟨"oak", 1, none⟩]⟩ = .ok catalog :=
    ⟨_, rfl⟩
  refine ⟨catalog, hinsert, ?_⟩
  refine (variation_depends_on_reached roundabout .default "seed" 0).2.1 _ catalog hinsert ?_
  intro hreach
  rcases reaches_roundabout hreach with h | h
  · simp at h
  · simp at h

end SeededText
