import Mathlib.Data.List.Nodup
import SeededText.Proofs.Draw.Keys
import SeededText.Proofs.Expansion.Reach
import SeededText.Proofs.Template.Shape

/-!
# Occurrences and keys

Each use of a slot has a key of its own: the slot and the number of uses it had before.  `Counted`
says this of the uses that a tally holds, and every move keeps it.  So the occurrences of a slot are
`0, 1, 2, …` in the order of the walk, and no key is used twice in a variation.

A draw is made with the key of a use.  In a template that was read, and in the values it reaches, all
names are identifiers, so different keys have different materials: `drawn_nodup`.
-/

namespace SeededText

/-! ## 1. Counted uses -/

/-- Of uses, the last one first: each has as many uses of its slot before it as its occurrence
says. -/
def Counted : List Draw.Key → Prop
  | [] => True
  | key :: uses => key.occurrence = uses.countP (·.slot = key.slot) ∧ Counted uses

section

variable {uses : List Draw.Key} {key : Draw.Key} {slot : Draw.Slot}

theorem occurrence_nextKey {tally : Tally} (h : Counted tally.uses) (slot : Draw.Slot) :
    (tally.nextKey slot).occurrence = tally.uses.countP (·.slot = slot) := by
  obtain ⟨budget, uses, reported⟩ := tally
  dsimp only at h ⊢
  induction uses with
  | nil => rfl
  | cons key uses ih =>
    by_cases hslot : key.slot = slot
    · simp [Tally.nextKey, hslot, h.1]
    · have hnext := ih h.2
      simpa [Tally.nextKey, hslot] using hnext

theorem Counted.use {tally : Tally} (h : Counted tally.uses) (slot : Draw.Slot) :
    Counted (tally.use slot).uses := by
  refine ⟨?_, h⟩
  rw [occurrence_nextKey h, slot_nextKey]

theorem Counted.occurrence_lt (h : Counted uses) (hmem : key ∈ uses) :
    key.occurrence < uses.countP (·.slot = key.slot) := by
  induction uses with
  | nil => cases hmem
  | cons first uses ih =>
    rcases List.mem_cons.1 hmem with rfl | hmem
    · simp [h.1]
    · exact Nat.lt_of_lt_of_le (ih h.2 hmem) ((List.sublist_cons_self first uses).countP_le)

/-- No key is used twice. -/
theorem Counted.nodup (h : Counted uses) : uses.Nodup := by
  induction uses with
  | nil => exact List.nodup_nil
  | cons key uses ih =>
    refine List.nodup_cons.2 ⟨fun hmem => ?_, ih h.2⟩
    exact absurd h.1 (Nat.ne_of_lt (h.2.occurrence_lt hmem))

/-- The uses of a slot count up from zero. -/
theorem Counted.occurrences (h : Counted uses) (slot : Draw.Slot) :
    ((uses.reverse.filter (·.slot = slot)).map Draw.Key.occurrence)
      = List.range (uses.countP (·.slot = slot)) := by
  induction uses with
  | nil => rfl
  | cons key uses ih =>
    rw [List.reverse_cons, List.filter_append, List.map_append, ih h.2]
    by_cases hslot : key.slot = slot
    · have hoccurrence := h.1
      rw [hslot] at hoccurrence
      simp [hslot, hoccurrence, List.range_succ]
    · simp [hslot]

end

/-! ## 2. Uses and draws of a trace -/

namespace Trace

def use? : Event → Option Draw.Key
  | .use key => some key
  | _ => none

def draw? : Event → Option Draw.Key
  | .draw key => some key
  | _ => none

/-- The keys of all uses of slots, in order. -/
def uses (trace : Trace) : List Draw.Key :=
  trace.filterMap use?

/-- The keys of all draws, in order. -/
def draws (trace : Trace) : List Draw.Key :=
  trace.filterMap draw?

@[simp]
theorem uses_append (before after : Trace) : uses (before ++ after) = uses before ++ uses after :=
  List.filterMap_append

@[simp]
theorem draws_append (before after : Trace) :
    draws (before ++ after) = draws before ++ draws after :=
  List.filterMap_append

theorem uses_cons (event : Event) (trace : Trace) :
    uses (event :: trace) = (use? event).toList ++ uses trace := by
  cases h : use? event <;> simp [uses, h]

theorem draws_cons (event : Event) (trace : Trace) :
    draws (event :: trace) = (draw? event).toList ++ draws trace := by
  cases h : draw? event <;> simp [draws, h]

@[simp]
theorem uses_problems (ps : List Problem) : uses (ps.map .problem) = [] := by
  simp [uses, use?, List.filterMap_map]

@[simp]
theorem draws_problems (ps : List Problem) : draws (ps.map .problem) = [] := by
  simp [draws, draw?, List.filterMap_map]

/-- What a use leaves behind: problems, and then what has no use and at most the draw with the key
of this use. -/
theorem uses_of_use {key : Draw.Key} {ps : List Problem} {rest : Trace} (h : uses rest = []) :
    uses (.use key :: (ps.map .problem ++ rest)) = [key] := by
  rw [uses_cons, uses_append, uses_problems, h]
  rfl

theorem draws_of_use {key : Draw.Key} {ps : List Problem} {rest : Trace} :
    draws (.use key :: (ps.map .problem ++ rest)) = draws rest := by
  rw [draws_cons, draws_append, draws_problems]
  rfl

end Trace

section

variable {s : Setting} {level : Nat} {tally after : Tally} {name text : String} {node : Node}
  {events : Trace} {items : List Item} {start finish : Stage} {r : Request}

theorem Places.uses (h : Places s level tally name text events items after) :
    Trace.uses events = [] ∧ Trace.draws events = [] ∧ after.uses = tally.uses := by
  cases h <;> exact ⟨rfl, rfl, rfl⟩

/-- What a move does with slots: nothing, or it uses one slot and draws at most once, with the key
of this use. -/
theorem Move.uses (h : Move s level tally node events items after) :
    (Trace.uses events = [] ∧ Trace.draws events = [] ∧ after.uses = tally.uses) ∨
      ∃ slot, Trace.uses events = [tally.nextKey slot] ∧
        (Trace.draws events).Sublist [tally.nextKey slot] ∧ after.uses = (tally.use slot).uses ∧
          ∀ name, slot = .variable name → node = .variable name := by
  cases h with
  | literal | thenBranch | elseBranch | malformed => exact .inl ⟨rfl, rfl, rfl⟩
  | @option index =>
    refine .inr ⟨.optionGroup index, Trace.uses_of_use rfl, ?_, rfl, nofun⟩
    rw [Trace.draws_of_use]
    exact List.Sublist.refl _
  | @noOption index =>
    refine .inr ⟨.optionGroup index, Trace.uses_of_use rfl, ?_, rfl, nofun⟩
    rw [Trace.draws_of_use]
    exact List.nil_sublist _
  | @noValue name =>
    refine .inr ⟨.variable name, Trace.uses_of_use rfl, ?_, rfl, ?_⟩
    · rw [Trace.draws_of_use]
      exact List.nil_sublist _
    · rintro _ ⟨⟩
      rfl
  | @value name text events items after _ hplaces =>
    obtain ⟨huses, hdraws, hafter⟩ := hplaces.uses
    refine .inr ⟨.variable name, Trace.uses_of_use ?_, ?_, hafter, ?_⟩
    · exact huses
    · rw [Trace.draws_of_use, Trace.draws_cons, hdraws]
      exact List.Sublist.refl _
    · rintro _ ⟨⟩
      rfl

/-- The uses of a run are those that its tally holds after it, and they stay counted.  Every draw is
made with the key of a use. -/
theorem Moves.uses (h : Moves s start events finish) (hcounted : Counted start.tally.uses) :
    finish.tally.uses = (Trace.uses events).reverse ++ start.tally.uses ∧
      Counted finish.tally.uses ∧ (Trace.draws events).Sublist (Trace.uses events) := by
  induction h with
  | refl => exact ⟨rfl, hcounted, List.Sublist.refl _⟩
  | @move _ _ _ _ tally after events _ _ hmove _ ih =>
    have hmoved : after.uses = (Trace.uses events).reverse ++ tally.uses ∧ Counted after.uses ∧
        (Trace.draws events).Sublist (Trace.uses events) := by
      rcases hmove.uses with ⟨huses, hdraws, hafter⟩ | ⟨slot, huses, hdraws, hafter, -⟩
      · rw [huses, hdraws, hafter]
        exact ⟨rfl, hcounted, List.Sublist.refl _⟩
      · rw [huses, hafter]
        exact ⟨rfl, hcounted.use slot, hdraws⟩
    obtain ⟨hafter, hcounted, hdraws⟩ := hmoved
    obtain ⟨hfinish, hcounted, hlater⟩ := ih hcounted
    refine ⟨?_, hcounted, ?_⟩
    · rw [hfinish, hafter, Trace.uses_append, List.reverse_append, List.append_assoc]
    · rw [Trace.draws_append, Trace.uses_append]
      exact hdraws.append hlater

/-! ## 3. Names of slots -/

/-- The slots of variables that are used are those of variables that are reached. -/
theorem Moves.uses_reached (hcatalog : s.catalog = r.catalog) (h : Moves s start events finish)
    (hreach : r.ReachesAll (start.agenda.map Item.node)) {key : Draw.Key}
    (hkey : key ∈ Trace.uses events) (hslot : key.slot = .variable name) :
    r.Reaches (.variable name) := by
  induction h with
  | refl => cases hkey
  | @move _ node agenda _ tally _ events _ _ hmove _ ih =>
    rw [Trace.uses_append] at hkey
    rcases List.mem_append.1 hkey with hkey | hkey
    · rcases hmove.uses with ⟨huses, -, -⟩ | ⟨slot, huses, -, -, hnode⟩
      · rw [huses] at hkey
        cases hkey
      · rw [huses, List.mem_singleton] at hkey
        rw [hkey, slot_nextKey] at hslot
        rw [← hnode name hslot]
        exact Request.ReachesAll.head hreach
    · exact ih (hmove.reaches_agenda hcatalog hreach) hkey

/-- If a template was read, what it reaches was read too, so its variables have identifiers for
names. -/
theorem identifier_of_reaches {source : String} (hread : Template.read source = .ok r.template)
    (h : r.Reaches (.variable name)) : isIdentifier name.toList = true := by
  cases h with
  | template hmem => exact identifier_of_read hread hmem
  | value _ _ _ hvalue hmem => exact identifier_of_read hvalue hmem

end

/-! ## 4. The draws of a run -/

section

variable {r : Request} {limits : Limits} {source seed : String} {index : Nat}

theorem uses_of_trace (r : Request) (limits : Limits) (seed : String) (index : Nat) :
    Counted (Trace.uses (r.trace limits seed index)).reverse ∧
      (Trace.draws (r.trace limits seed index)).Sublist (Trace.uses (r.trace limits seed index)) := by
  obtain ⟨finish, -, hmoves⟩ := exists_moves r limits seed index
  obtain ⟨hfinish, hcounted, hdraws⟩ := hmoves.uses trivial
  have huses : finish.tally.uses = (Trace.uses (r.trace limits seed index)).reverse :=
    hfinish.trans (List.append_nil _)
  rw [huses] at hcounted
  exact ⟨hcounted, hdraws⟩

theorem named_of_trace (hread : Template.read source = .ok r.template) {key : Draw.Key}
    (hkey : key ∈ Trace.uses (r.trace limits seed index)) : key.slot.Named := by
  obtain ⟨finish, -, hmoves⟩ := exists_moves r limits seed index
  cases hslot : key.slot with
  | optionGroup => trivial
  | «variable» name =>
    have hreach := hmoves.uses_reached rfl (reachesAll_start r limits) hkey hslot
    exact identifier_of_reaches hread hreach

/-- The materials of all draws in the first variations of a run, `count` of them. -/
def Request.drawn (r : Request) (limits : Limits) (seed : String) (count : Nat) : List String :=
  (List.range count).flatMap fun index =>
    (Trace.draws (r.trace limits seed index)).map
      (Draw.Key.material (Draw.variationSeed seed index))

theorem drawn_nodup (hread : Template.read source = .ok r.template) (limits : Limits)
    (seed : String) (count : Nat) : (r.drawn limits seed count).Nodup := by
  have hnamed : ∀ {index : Nat} {key : Draw.Key},
      key ∈ Trace.draws (r.trace limits seed index) → key.slot.Named :=
    fun hkey => named_of_trace hread ((uses_of_trace r limits seed _).2.subset hkey)
  refine List.nodup_flatMap.2 ⟨fun index _ => ?_, ?_⟩
  · -- inside a variation no key is used twice
    obtain ⟨hcounted, hdraws⟩ := uses_of_trace r limits seed index
    have hkeys := (List.nodup_reverse.1 hcounted.nodup).sublist hdraws
    refine hkeys.map_on fun key hkey key' hkey' heq => ?_
    exact (Draw.material_inj (hnamed hkey) (hnamed hkey') heq).2.2
  · -- and materials of different variations differ in the index
    refine List.nodup_range.imp fun hne => ?_
    intro material hmaterial hmaterial'
    obtain ⟨key, hkey, rfl⟩ := List.mem_map.1 hmaterial
    obtain ⟨key', hkey', heq⟩ := List.mem_map.1 hmaterial'
    exact hne (Draw.material_inj (hnamed hkey') (hnamed hkey) heq).2.1.symm

theorem run_eq_ok {fresh : String} {seed : Option String} {count : Nat} {run : Run}
    (h : r.run limits fresh seed count = .ok run) :
    run.variations = (List.range count).map fun index =>
      (r.trace limits run.seed index).text := by
  unfold Request.run at h
  split at h
  · cases h
  · split at h
    · cases h
    · cases h
      simp [Request.variation]

end

/-- No two draws share their material.  Keys of named slots have the same material only if the seed,
the variation, the slot and the occurrence are all the same.  So in a run of a template that was
read, whatever the catalog, all draws have different materials; and in each variation the uses of a
slot, among which the draws are, count up from zero. -/
theorem draws_apart :
    (∀ (seed seed' : String) (variation variation' : Nat) (key key' : Draw.Key),
      key.slot.Named → key'.slot.Named →
        key.material (Draw.variationSeed seed variation)
          = key'.material (Draw.variationSeed seed' variation') →
        seed = seed' ∧ variation = variation' ∧ key.slot = key'.slot ∧
          key.occurrence = key'.occurrence) ∧
    ∀ (source : String) (r : Request) (limits : Limits) (fresh : String) (seed : Option String)
      (count : Nat) (run : Run), Template.read source = .ok r.template →
        r.run limits fresh seed count = .ok run →
          (run.variations = (List.range count).map fun index =>
            (r.trace limits run.seed index).text) ∧
          (r.drawn limits run.seed count).Nodup ∧
          ∀ index < count, (Trace.draws (r.trace limits run.seed index)).Sublist
              (Trace.uses (r.trace limits run.seed index)) ∧
            ∀ slot, ∃ n, ((Trace.uses (r.trace limits run.seed index)).filter
              (·.slot = slot)).map Draw.Key.occurrence = List.range n := by
  refine ⟨?_, ?_⟩
  · intro seed seed' variation variation' key key' hkey hkey' h
    obtain ⟨hseed, hvariation, rfl⟩ := Draw.material_inj hkey hkey' h
    exact ⟨hseed, hvariation, rfl, rfl⟩
  · intro source r limits fresh seed count run hread hrun
    refine ⟨run_eq_ok hrun, drawn_nodup hread limits run.seed count, fun index _ => ?_⟩
    obtain ⟨hcounted, hdraws⟩ := uses_of_trace r limits run.seed index
    refine ⟨hdraws, fun slot => ?_⟩
    have hoccurrences := hcounted.occurrences slot
    rw [List.reverse_reverse] at hoccurrences
    exact ⟨_, hoccurrences⟩

/-- A variable that is called what groups are called, and a variable that its value uses. -/
def namesakes : Request where
  template := ⟨[.variable "option",
    .optionGroup 0 [⟨"T", none, [.variable "x", .variable "option"]⟩]]⟩
  catalog := (Catalog.empty.insertValid
    ⟨"option", none, [⟨"\x7b\x7bx\x7d\x7d", 1, none⟩]⟩ (by decide)).insertValid
    ⟨"x", none, [⟨"a", 1, none⟩, ⟨"b", 2, none⟩]⟩ (by decide)
  context := ⟨[]⟩

theorem draws_apart_namesakes :
    (∃ run, namesakes.run .default "fresh" (some "s-variation-1") 2 = .ok run ∧
      (namesakes.drawn .default run.seed 2).length = 12 ∧
      (namesakes.drawn .default run.seed 2).Nodup) ∧
    Draw.Key.material (Draw.variationSeed "s-variation-1" 0) ⟨.variable "option", 0⟩
      ≠ Draw.Key.material (Draw.variationSeed "s" 1) ⟨.optionGroup 0, 0⟩ := by
  have hread : Template.read ("\x7b\x7boption\x7d\x7d[[options]][[option title=\"T\"]]"
      ++ "\x7b\x7bx\x7d\x7d\x7b\x7boption\x7d\x7d[[/option]][[/options]]")
        = .ok namesakes.template := by decide +kernel
  refine ⟨⟨_, rfl, by decide +kernel, ?_⟩, fun heq => ?_⟩
  · exact (draws_apart.2 _ namesakes .default "fresh" (some "s-variation-1") 2 _ hread rfl).2.1
  · have hname : (Draw.Slot.variable "option").Named := by
      show isIdentifier "option".toList = true
      decide
    have hseed := (draws_apart.1 "s-variation-1" "s" 0 1 ⟨.variable "option", 0⟩
      ⟨.optionGroup 0, 0⟩ hname trivial heq).1
    simp at hseed

end SeededText
