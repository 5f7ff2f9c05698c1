import SeededText.Proofs.Expansion.Dependence

/-!
# Deciding all conditions in advance

In a context that is known, conditions need not wait for the expansion.  A conditional may be replaced
by the nodes of the branch that its condition selects, an option or a value whose condition is not
true may be left out, and the conditions of the others may be forgotten.  What is left of a request is
`Request.settle`; the texts of values stay as they are, with the conditions inside them.

The draws do not notice: each is made among the same candidates with the same key.  So the two
expansions go the same way, from the same tallies on the same levels, and only the problems of
conditions that cannot be read are missing from the second one (`Trace.Settles`).
-/

namespace SeededText

/-! ## 1. Settling -/

instance (context : Context) : (condition : Option String) → Decidable (Admits context condition)
  | none => isTrue admits_none
  | some source =>
    match h : decideCondition source context with
    | .ok true => isTrue (admits_some.2 h)
    | .ok false => isFalse fun hadmits => by simp [admits_some.1 hadmits] at h
    | .error _ => isFalse fun hadmits => by simp [admits_some.1 hadmits] at h

mutual

/-- What is left of a node when its conditions are decided. -/
def Node.settle (context : Context) : Node → List Node
  | .literal text => [.literal text]
  | .variable name => [.variable name]
  | .conditional condition thenBranch none =>
    if Admits context (some condition) then Node.settleList context thenBranch else []
  | .conditional condition thenBranch (some elseBranch) =>
    if Admits context (some condition) then Node.settleList context thenBranch
    else Node.settleList context elseBranch
  | .optionGroup index options => [.optionGroup index (Node.settleChoices context options)]

def Node.settleList (context : Context) : List Node → List Node
  | [] => []
  | node :: nodes => node.settle context ++ Node.settleList context nodes

def Node.settleChoices (context : Context) : List (Choice Node) → List (Choice Node)
  | [] => []
  | ⟨title, condition, body⟩ :: options =>
    if Admits context condition then
      ⟨title, none, Node.settleList context body⟩ :: Node.settleChoices context options
    else
      Node.settleChoices context options

end

def Template.settle (template : Template) (context : Context) : Template :=
  ⟨Node.settleList context template.nodes⟩

/-- The entry with its admitted values alone, which lose their conditions. -/
def Entry.settle (context : Context) (e : Entry) : Entry :=
  { e with
    values := (e.values.filter fun value => Admits context value.condition).map fun value =>
      { value with condition := none } }

theorem Entry.Valid.settle {e : Entry} (h : e.Valid) (context : Context) :
    (e.settle context).Valid := by
  refine ⟨h.1, fun value hvalue => ?_⟩
  obtain ⟨kept, hkept, rfl⟩ := List.mem_map.1 hvalue
  exact h.2 kept (List.mem_filter.1 hkept).1

def Catalog.settle (c : Catalog) (context : Context) : Catalog where
  entries := c.entries.map (Entry.settle context)
  sorted := c.sorted.map (Entry.settle context) fun _ _ h => h
  valid e he := by
    obtain ⟨kept, hkept, rfl⟩ := List.mem_map.1 he
    exact (c.valid kept hkept).settle context

/-- The request with all conditions decided that do not stand inside the texts of values. -/
def Request.settle (r : Request) : Request :=
  ⟨r.template.settle r.context, r.catalog.settle r.context, r.context⟩

def Setting.settle (s : Setting) : Setting :=
  { s with catalog := s.catalog.settle s.context }

/-! ## 2. The same is picked -/

section

variable {α : Type} {context : Context} {conditionOf : α → Option String} {xs : List α}

theorem admitted_eq_filter : (Admission.of context conditionOf xs).admitted
    = xs.filter fun x => Admits context (conditionOf x) := by
  induction xs with
  | nil => rfl
  | cons x xs ih =>
    rw [List.filter_cons]
    cases hx : conditionOf x with
    | none => simp [Admission.of, hx, ih, admits_none]
    | some source =>
      cases hdecide : decideCondition source context with
      | error e => simp [Admission.of, hx, hdecide, ih, admits_some]
      | ok holds => cases holds <;> simp [Admission.of, hx, hdecide, ih, admits_some]

/-- Without conditions all are admitted. -/
theorem of_unconditional (h : ∀ x ∈ xs, conditionOf x = none) :
    Admission.of context conditionOf xs = ⟨xs, []⟩ := by
  induction xs with
  | nil => rfl
  | cons x xs ih =>
    have hrest := ih fun y hy => h y (List.mem_cons_of_mem x hy)
    simp [Admission.of, h x List.mem_cons_self, hrest]

end

section

variable {s : Setting} {context : Context} {name : String}

theorem Catalog.get?_settle (c : Catalog) (context : Context) (name : String) :
    (c.settle context).get? name = (c.get? name).map (Entry.settle context) :=
  List.find?_map

theorem admission_settle (e : Entry) (context : Context) : (e.settle context).admission context
    = ⟨(e.admission context).admitted.map fun value => { value with condition := none }, []⟩ := by
  have hvalues : (e.settle context).values
      = (e.admission context).admitted.map fun value => { value with condition := none } := by
    rw [Entry.admission, admitted_eq_filter]
    rfl
  rw [Entry.admission, hvalues]
  refine of_unconditional fun value hvalue => ?_
  obtain ⟨kept, -, rfl⟩ := List.mem_map.1 hvalue
  rfl

/-- A draw picks by texts and weights, whatever the conditions are. -/
theorem pickText?_unconditional (candidates : List Candidate) (draw : Float) :
    pickText? (candidates.map fun value => { value with condition := none }) draw
      = pickText? candidates draw := by
  have hweights : (candidates.map fun value => { value with condition := none }).map
      Candidate.weight = candidates.map Candidate.weight := by
    rw [List.map_map]
    rfl
  rw [pickText?, pickText?, hweights]
  cases Draw.weightedIndex (candidates.map Candidate.weight) draw with
  | none => rfl
  | some index =>
    show Option.bind _ _ = Option.bind _ _
    rw [Option.bind_some, Option.bind_some, List.getElem?_map]
    cases candidates[index]? <;> rfl

theorem pickText_settle (s : Setting) (key : Draw.Key) (name : String) :
    s.settle.pickText key name = s.pickText key name := by
  unfold Setting.pickText Catalog.eligible Setting.settle
  dsimp only
  rw [Catalog.get?_settle]
  cases s.catalog.get? name with
  | none => rfl
  | some e =>
    rw [Option.map_some]
    dsimp only
    rw [admission_settle]
    cases hadmitted : (e.admission s.context).admitted with
    | nil => rfl
    | cons first others =>
      have hpick := pickText?_unconditional (first :: others)
        (Draw.unit (key.material s.material))
      rw [List.map_cons] at hpick
      simp only [List.map_cons, List.isEmpty_cons, Bool.false_eq_true, if_false, Eligibility.pick,
        hpick]

theorem malformed_settle (s : Setting) (name : String) : s.settle.malformed name = [] := by
  unfold Setting.malformed Catalog.eligible Setting.settle
  dsimp only
  rw [Catalog.get?_settle]
  cases s.catalog.get? name with
  | none => rfl
  | some e =>
    rw [Option.map_some]
    dsimp only
    rw [admission_settle]
    rfl

def Choice.settle (context : Context) (option : Choice Node) : Choice Node :=
  { option with condition := none, body := Node.settleList context option.body }

theorem settleChoices_eq (context : Context) (options : List (Choice Node)) :
    Node.settleChoices context options
      = (options.filter fun option => Admits context option.condition).map
          (Choice.settle context) := by
  induction options with
  | nil => rfl
  | cons option options ih =>
    rw [Node.settleChoices, List.filter_cons, ih]
    by_cases h : Admits context option.condition <;> simp [h, Choice.settle]

theorem of_settleChoices (context : Context) (options : List (Choice Node)) :
    Admission.of context Choice.condition (Node.settleChoices context options)
      = ⟨Node.settleChoices context options, []⟩ := by
  refine of_unconditional fun option hoption => ?_
  rw [settleChoices_eq] at hoption
  obtain ⟨kept, -, rfl⟩ := List.mem_map.1 hoption
  rfl

theorem unreadable_settleChoices (context : Context) (options : List (Choice Node)) :
    unreadable context ((Node.settleChoices context options).map Choice.condition) = [] := by
  rw [← problems_of, of_settleChoices]
  rfl

/-- The draw for a group picks what is left of the option that it picked before. -/
theorem pick?_settleChoices (s : Setting) (key : Draw.Key) (options : List (Choice Node)) :
    s.settle.pick? key Choice.condition (Node.settleChoices s.context options)
      = (s.pick? key Choice.condition options).map (Choice.settle s.context) := by
  have hadmitted : (Admission.of s.context Choice.condition
      (Node.settleChoices s.context options)).admitted
      = (Admission.of s.context Choice.condition options).admitted.map
          (Choice.settle s.context) := by
    rw [of_settleChoices, admitted_eq_filter]
    exact settleChoices_eq s.context options
  unfold Setting.pick?
  dsimp only [Setting.settle]
  rw [hadmitted, List.length_map]
  cases Draw.index? (key.material s.material)
      (Admission.of s.context Choice.condition options).admitted.length with
  | none => rfl
  | some i => exact List.getElem?_map

end

/-! ## 3. Traces and agendas side by side -/

namespace Trace

/-- The event records a condition that cannot be read. -/
def isMalformed : Event → Bool
  | .problem p => p.isCondition
  | _ => false

/-- The second events are the first without some problems of conditions. -/
structure Settles (events events' : Trace) : Prop where
  sublist : events'.Sublist events
  others : events'.filter (!isMalformed ·) = events.filter (!isMalformed ·)

variable {events events' later later' : Trace}

protected theorem Settles.refl (events : Trace) : events.Settles events :=
  ⟨.refl _, rfl⟩

theorem Settles.append (h : events.Settles events') (h' : later.Settles later') :
    Trace.Settles (events ++ later) (events' ++ later') where
  sublist := h.sublist.append h'.sublist
  others := by rw [List.filter_append, List.filter_append, h.others, h'.others]

/-- Problems of conditions, and no events any more. -/
theorem settles_malformed (es : List MalformedCondition) :
    Settles ((es.map Problem.malformedCondition).map .problem) [] where
  sublist := List.nil_sublist _
  others := by
    refine (List.filter_eq_nil_iff.2 fun event hevent => ?_).symm
    rw [List.map_map] at hevent
    obtain ⟨e, -, rfl⟩ := List.mem_map.1 hevent
    simp [isMalformed, Problem.isCondition]

/-- After the use of a slot the problems of conditions are missing. -/
theorem Settles.use (h : events.Settles events') (key : Draw.Key) (es : List MalformedCondition) :
    Settles (.use key :: ((es.map Problem.malformedCondition).map .problem ++ events))
      (.use key :: events') :=
  (Settles.refl [.use key]).append ((settles_malformed es).append h)

theorem text_filter (events : Trace) : text (events.filter (!isMalformed ·)) = text events := by
  unfold text
  rw [List.filterMap_filter]
  congr 2
  funext event
  cases event with
  | problem p => cases p <;> rfl
  | text | use | draw | opened | closed => rfl

theorem problems_filter (events : Trace) : problems (events.filter (!isMalformed ·))
    = (problems events).filter (!Problem.isCondition ·) := by
  unfold problems
  rw [List.filterMap_filter, List.filter_filterMap]
  congr 1
  funext event
  cases event with
  | problem p => cases p <;> rfl
  | text | use | draw | opened | closed => rfl

theorem Settles.text (h : events.Settles events') : events'.text = events.text := by
  rw [← text_filter, h.others, text_filter]

theorem Settles.problems (h : events.Settles events') :
    events'.problems.filter (!Problem.isCondition ·)
      = events.problems.filter (!Problem.isCondition ·) := by
  rw [← problems_filter, h.others, problems_filter]

end Trace

/-- The second agenda is the first with some nodes settled. -/
inductive Settles (context : Context) : List Item → List Item → Prop where
  | nil : Settles context [] []
  | keep (item : Item) {agenda agenda' : List Item} : Settles context agenda agenda' →
      Settles context (item :: agenda) (item :: agenda')
  | settle (level : Nat) (node : Node) {agenda agenda' : List Item} :
      Settles context agenda agenda' →
        Settles context (⟨level, node⟩ :: agenda) (atLevel level (node.settle context) ++ agenda')

section

variable {context : Context} {agenda agenda' later later' : List Item}

protected theorem Settles.refl (agenda : List Item) : Settles context agenda agenda := by
  induction agenda with
  | nil => exact .nil
  | cons item agenda ih => exact .keep item ih

theorem Settles.append (h : Settles context agenda agenda') (h' : Settles context later later') :
    Settles context (agenda ++ later) (agenda' ++ later') := by
  induction h with
  | nil => exact h'
  | keep item _ ih => exact .keep item ih
  | settle level node _ ih =>
    rw [List.append_assoc]
    exact .settle level node ih

theorem settles_settleList (level : Nat) (nodes : List Node) :
    Settles context (atLevel level nodes) (atLevel level (Node.settleList context nodes)) := by
  induction nodes with
  | nil => exact .nil
  | cons node nodes ih =>
    have hnodes : atLevel level (Node.settleList context (node :: nodes))
        = atLevel level (node.settle context) ++ atLevel level (Node.settleList context nodes) :=
      List.map_append
    rw [hnodes]
    exact .settle level node ih

end

/-! ## 4. Moves side by side -/

/-- Moves from the stage with all conditions decided match a move with the events, the items and the
tally after it. -/
def Stage.Settles (s : Setting) (stage : Stage) (events : Trace) (items : List Item)
    (after : Tally) : Prop :=
  ∃ events' items', Moves s.settle stage events' ⟨items', after⟩ ∧ events.Settles events' ∧
    SeededText.Settles s.context items items'

section

variable {s : Setting} {level : Nat} {tally after : Tally} {node node' : Node}
  {events events' : Trace} {items items' agenda' : List Item} {start finish : Stage}

theorem Move.settles_of (h : Move s.settle level tally node' events' items' after)
    (hevents : events.Settles events') (hitems : Settles s.context items items') :
    Stage.Settles s ⟨[⟨level, node'⟩], tally⟩ events items after := by
  have hmoves := Moves.move h (.refl ⟨items' ++ [], after⟩)
  rw [List.append_nil, List.append_nil] at hmoves
  exact ⟨events', items', hmoves, hevents, hitems⟩

/-- A node whose conditions still stand is matched by itself. -/
theorem Move.settles_keep (h : Move s level tally node events items after) :
    Stage.Settles s ⟨[⟨level, node⟩], tally⟩ events items after := by
  cases h with
  | literal text => exact Move.settles_of (.literal text) (.refl _) .nil
  | thenBranch hc => exact Move.settles_of (.thenBranch hc) (.refl _) (.refl _)
  | elseBranch hc => exact Move.settles_of (.elseBranch hc) (.refl _) (.refl _)
  | malformed hc => exact Move.settles_of (.malformed hc) (.refl _) (.refl _)
  | option hpick => exact Move.settles_of (.option hpick) (.refl _) (.refl _)
  | noOption hpick => exact Move.settles_of (.noOption hpick) (.refl _) .nil
  | noValue hpick =>
    rw [← pickText_settle] at hpick
    have hmove : Move s.settle level tally _ _ _ _ := .noValue hpick
    rw [malformed_settle] at hmove
    exact hmove.settles_of ((Trace.Settles.refl _).use _ _) .nil
  | value hpick hplaces =>
    rw [← pickText_settle] at hpick
    have hmove : Move s.settle level tally _ _ _ _ := .value hpick (hplaces.transfer rfl)
    rw [malformed_settle] at hmove
    exact hmove.settles_of ((Trace.Settles.refl _).use _ _) (.refl _)

/-- A conditional is matched by the branch that it selects, without a move. -/
theorem settles_branch {branch : List Node} (hevents : events.Settles []) :
    Stage.Settles s ⟨atLevel level (Node.settleList s.context branch), tally⟩ events
      (atLevel level branch) tally :=
  ⟨[], _, .refl _, hevents, settles_settleList level branch⟩

/-- A node is matched by what is left of it. -/
theorem Move.settles (h : Move s level tally node events items after) :
    Stage.Settles s ⟨atLevel level (node.settle s.context), tally⟩ events items after := by
  cases h with
  | literal text => exact (Move.literal text).settles_keep
  | noValue hpick => exact (Move.noValue hpick).settles_keep
  | value hpick hplaces => exact (Move.value hpick hplaces).settles_keep
  | @thenBranch condition thenBranch elseBranch hc =>
    have hnode : (Node.conditional condition thenBranch elseBranch).settle s.context
        = Node.settleList s.context thenBranch := by
      cases elseBranch <;> simp [Node.settle, admits_some, hc]
    rw [hnode]
    exact settles_branch (.refl _)
  | @elseBranch condition thenBranch elseBranch hc =>
    have hnode : (Node.conditional condition thenBranch elseBranch).settle s.context
        = Node.settleList s.context (elseBranch.getD []) := by
      cases elseBranch <;> simp [Node.settle, Node.settleList, admits_some, hc]
    rw [hnode]
    exact settles_branch (.refl _)
  | @malformed condition thenBranch elseBranch e hc =>
    have hnode : (Node.conditional condition thenBranch elseBranch).settle s.context
        = Node.settleList s.context (elseBranch.getD []) := by
      cases elseBranch <;> simp [Node.settle, Node.settleList, admits_some, hc]
    rw [hnode]
    exact settles_branch (Trace.settles_malformed [e])
  | @option index options option hpick =>
    rw [Node.settle]
    have hpicked := pick?_settleChoices s (tally.nextKey (.optionGroup index)) options
    rw [hpick] at hpicked
    have hmove : Move s.settle level tally _ _ _ _ := .option hpicked
    rw [show s.settle.context = s.context from rfl, unreadable_settleChoices] at hmove
    rw [← problems_of]
    exact hmove.settles_of ((Trace.Settles.refl _).use _ _) (settles_settleList level option.body)
  | @noOption index options hpick =>
    rw [Node.settle]
    have hpicked := pick?_settleChoices s (tally.nextKey (.optionGroup index)) options
    rw [hpick] at hpicked
    have hmove : Move s.settle level tally _ _ _ _ := .noOption hpicked
    rw [show s.settle.context = s.context from rfl, unreadable_settleChoices] at hmove
    rw [← problems_of]
    exact hmove.settles_of ((Trace.Settles.refl _).use _ _) .nil

/-- Moves to the end are matched, from an agenda with nodes settled, by moves to the same tally. -/
theorem Moves.settles (h : Moves s start events finish) (hend : finish.agenda = [])
    (hagenda : Settles s.context start.agenda agenda') :
    ∃ events', Moves s.settle ⟨agenda', start.tally⟩ events' finish ∧ events.Settles events' := by
  induction h generalizing agenda' with
  | refl start =>
    obtain ⟨agenda, tally⟩ := start
    cases hend
    cases hagenda
    exact ⟨[], .refl _, .refl _⟩
  | @move level node agenda items tally after events later finish hmove _ ih =>
    obtain ⟨first, rest, rfl, hrest, hmatches⟩ : ∃ first rest, agenda' = first ++ rest ∧
        Settles s.context agenda rest ∧ Stage.Settles s ⟨first, tally⟩ events items after := by
      cases hagenda with
      | keep _ hrest => exact ⟨[_], _, rfl, hrest, hmove.settles_keep⟩
      | settle _ _ hrest => exact ⟨_, _, rfl, hrest, hmove.settles⟩
    obtain ⟨events', items', hmoves, hevents, hitems⟩ := hmatches
    obtain ⟨later', hlater, hevents'⟩ := ih hend (hitems.append hrest)
    exact ⟨events' ++ later', (hmoves.before rest).trans hlater, hevents.append hevents'⟩

end

/-! ## 5. Variations -/

theorem trace_settle (r : Request) (limits : Limits) (seed : String) (index : Nat) :
    (r.trace limits seed index).Settles (r.settle.trace limits seed index) := by
  obtain ⟨finish, hend, hmoves⟩ := exists_moves r limits seed index
  obtain ⟨events', hmoves', hevents⟩ :=
    hmoves.settles hend (settles_settleList 0 r.template.nodes)
  have htrace : r.settle.trace limits seed index = events' := by
    rw [trace_eq_iff_moves]
    exact ⟨finish, hend, hmoves'⟩
  rw [htrace]
  exact hevents

/-- With all conditions of the template, of its options and of the catalog's values decided in
advance, every variation has the same text.  It has the same problems in the same order, but for
some of those of conditions that cannot be read. -/
theorem variation_settle (r : Request) (limits : Limits) (seed : String) (index : Nat) :
    (r.settle.variation limits seed index).text = (r.variation limits seed index).text ∧
    (r.settle.variation limits seed index).problems.filter (!Problem.isCondition ·)
      = (r.variation limits seed index).problems.filter (!Problem.isCondition ·) ∧
    (r.settle.variation limits seed index).problems.Sublist
      (r.variation limits seed index).problems := by
  have hsettles := trace_settle r limits seed index
  exact ⟨hsettles.text, hsettles.problems, hsettles.sublist.filterMap Trace.problem?⟩

end SeededText
