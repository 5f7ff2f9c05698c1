import SeededText.Lint
import SeededText.Proofs.Expansion.Refinement

/-!
# Checked templates expand without errors

Checking walks every branch of a template and every value of a catalog.  An expansion walks the
branches that conditions and draws choose, and opens the values that it meets, inside each other and
perhaps in cycles.  What it meets was checked all the same: the branches with the nodes around them,
and an opened value with its entry.

So the argument is an induction on the results that nodes may have, under one condition on the
catalog as a whole.  The level and the values opened so far do not matter to it, and cycles do no
harm.
-/

namespace SeededText

/-! ## 1. Findings without errors -/

/-- None of the findings is an error. -/
def Sound (findings : List Finding) : Prop :=
  ∀ f ∈ findings, f.isError = false

theorem sound_append {first second : List Finding} :
    Sound (first ++ second) ↔ Sound first ∧ Sound second :=
  List.forall_mem_append

theorem sound_flatMap {α : Type} {findings : α → List Finding} {xs : List α} :
    Sound (xs.flatMap findings) ↔ ∀ x ∈ xs, Sound (findings x) := by
  simp only [Sound, List.mem_flatMap]
  constructor
  · exact fun h x hx f hf => h f ⟨x, hx, hf⟩
  · rintro h f ⟨x, hx, hf⟩
    exact h x hx f hf

/-- There is no condition, or it can be read. -/
def Readable (condition : Option String) : Prop :=
  ∀ source ∈ condition, ∃ c, Condition.read source = .ok c

theorem readable_none : Readable none :=
  fun _ h => nomatch h

theorem Readable.decide_ne {source : String} (h : Readable (some source)) (context : Context)
    (e : MalformedCondition) : decideCondition source context ≠ .error e := by
  obtain ⟨c, hread⟩ := h source rfl
  simp [decideCondition, hread, Except.map]

theorem unreadable_of_readable {conditions : List (Option String)}
    (h : ∀ condition ∈ conditions, Readable condition) (context : Context) :
    unreadable context conditions = [] := by
  induction conditions with
  | nil => rfl
  | cons condition conditions ih =>
    have htail := ih fun c hc => h c (List.mem_cons_of_mem _ hc)
    cases condition with
    | none => exact htail
    | some source =>
      have hsource := h (some source) List.mem_cons_self
      rw [unreadable]
      cases hdecide : decideCondition source context with
      | ok holds => exact htail
      | error e => exact absurd hdecide (hsource.decide_ne context e)

section

variable {catalog : Catalog} {place : Place} {option : Option String}

theorem readable_of_sound {source : String} (h : Sound (checkCondition place option source)) :
    Readable (some source) := by
  rintro _ ⟨⟩
  unfold checkCondition at h
  split at h
  · next c hread => exact ⟨c, hread⟩
  · exact absurd (h _ List.mem_cons_self) (by simp [Finding.isError])

theorem sound_conditional {condition : String} {thenBranch : List Node}
    {elseBranch : Option (List Node)}
    (h : Sound (checkNode catalog place (.conditional condition thenBranch elseBranch))) :
    Readable (some condition) ∧ Sound (checkNodes catalog place thenBranch) ∧
      Sound (checkNodes catalog place (elseBranch.getD [])) := by
  cases elseBranch with
  | none =>
    rw [checkNode, sound_append] at h
    exact ⟨readable_of_sound h.1, h.2, fun f hf => nomatch hf⟩
  | some elseBranch =>
    rw [checkNode, sound_append, sound_append] at h
    exact ⟨readable_of_sound h.1.1, h.1.2, h.2⟩

theorem sound_options {options : List (Choice Node)}
    (h : Sound (checkOptions catalog place options)) :
    ∀ option ∈ options,
      Readable option.condition ∧ Sound (checkNodes catalog place option.body) := by
  induction options with
  | nil =>
    intro option hmem
    cases hmem
  | cons first options ih =>
    obtain ⟨title, condition, body⟩ := first
    have hparts : Readable condition ∧ Sound (checkNodes catalog place body) ∧
        Sound (checkOptions catalog place options) := by
      cases condition with
      | none =>
        rw [checkOptions, sound_append] at h
        exact ⟨readable_none, h.1, h.2⟩
      | some condition =>
        rw [checkOptions, sound_append, sound_append] at h
        exact ⟨readable_of_sound h.1.1, h.1.2, h.2⟩
    intro option hmem
    rcases List.mem_cons.1 hmem with rfl | hmem
    · exact ⟨hparts.1, hparts.2.1⟩
    · exact ih hparts.2.2 option hmem

theorem unreadable_of_sound_options {options : List (Choice Node)}
    (h : Sound (checkOptions catalog place options)) (context : Context) :
    unreadable context (options.map Choice.condition) = [] := by
  refine unreadable_of_readable (fun condition hmem => ?_) context
  obtain ⟨option, hoption, rfl⟩ := List.mem_map.1 hmem
  exact (sound_options h option hoption).1

/-- A text without marks, or one that is read as a template without errors. -/
def SoundText (catalog : Catalog) (text : String) : Prop :=
  hasMark text = true → ∃ template place, Template.read text = .ok template ∧
    Sound (checkNodes catalog place template.nodes)

/-- The findings of a value are those of its condition, whatever its text is, and those of its
text. -/
theorem exists_checkValue_eq (catalog : Catalog) (name : String) (index : Nat) (value : Candidate) :
    ∃ ofText, checkValue catalog name index value
        = value.condition.elim [] (checkCondition (.value name index) none) ++ ofText ∧
      (Sound ofText → SoundText catalog value.text) := by
  obtain ⟨text, weight, condition⟩ := value
  unfold checkValue
  dsimp only
  split
  · split
    · next template hread =>
      refine ⟨checkNodes catalog (.value name index) template.nodes, ?_, ?_⟩
      · cases condition <;> rfl
      · exact fun hsound _ => ⟨template, _, hread, hsound⟩
    · next e hread =>
      refine ⟨[.invalidTemplate (.value name index) e], ?_, ?_⟩
      · cases condition <;> rfl
      · exact fun hsound => absurd (hsound _ List.mem_cons_self) (by simp [Finding.isError])
  · next hmark =>
    refine ⟨[], ?_, fun _ hmark' => absurd hmark' hmark⟩
    rw [List.append_nil]
    cases condition <;> rfl

theorem sound_value {name : String} {index : Nat} {value : Candidate}
    (h : Sound (checkValue catalog name index value)) :
    Readable value.condition ∧ SoundText catalog value.text := by
  obtain ⟨ofText, hfindings, htext⟩ := exists_checkValue_eq catalog name index value
  rw [hfindings, sound_append] at h
  refine ⟨?_, htext h.2⟩
  cases hcondition : value.condition with
  | none => exact readable_none
  | some condition =>
    rw [hcondition] at h
    exact readable_of_sound h.1

theorem sound_entry {e : Entry} (h : Sound (checkEntry catalog e)) :
    ∀ value ∈ e.values, Readable value.condition ∧ SoundText catalog value.text := by
  unfold checkEntry at h
  dsimp only at h
  rw [sound_append, sound_append, sound_flatMap] at h
  intro value hmem
  obtain ⟨index, hindex, rfl⟩ := List.getElem_of_mem hmem
  have hvalue := h.1.2 (e.values[index], index)
    (List.mem_zipIdx_iff_getElem?.2 (List.getElem?_eq_getElem hindex))
  exact sound_value hvalue

end

/-! ## 2. Problems that remain -/

/-- The problems that an expansion may meet where no error was found; `warned` says whether a
variable may be left without a value. -/
def Remains (limit : Nat) (warned : Prop) : Problem → Prop
  | .noEligibleOption _ => True
  | .maxRecursionExceeded _ reported => reported = limit
  | .noEligibleValue _ => warned
  | .malformedCondition _ | .unknownVariable _ | .invalidValueTemplate .. => False

/-- No entry of the catalog has an error, and each has a value without a condition unless there is
a warning. -/
structure SoundCatalog (catalog : Catalog) (warned : Prop) : Prop where
  entries : ∀ e ∈ catalog.entries, Sound (checkEntry catalog e)
  unconditional : warned ∨ ∀ e ∈ catalog.entries, ∃ value ∈ e.values, value.condition = none

section

variable {m : Surroundings} {warned : Prop}

theorem SoundCatalog.get? (h : SoundCatalog m.catalog warned) {name : String} {e : Entry}
    (hget : m.catalog.get? name = some e) :
    ∀ value ∈ e.values, Readable value.condition ∧ SoundText m.catalog value.text :=
  sound_entry (h.entries e (List.mem_of_find?_eq_some hget))

theorem SoundCatalog.unreadable_eq_nil (h : SoundCatalog m.catalog warned) {name : String}
    {e : Entry} (hget : m.catalog.get? name = some e) : m.unreadable e = [] := by
  refine unreadable_of_readable (fun condition hmem => ?_) m.context
  obtain ⟨value, hvalue, rfl⟩ := List.mem_map.1 hmem
  exact (h.get? hget value hvalue).1

theorem SoundCatalog.noValue (h : SoundCatalog m.catalog warned) {name : String} {e : Entry}
    (hget : m.catalog.get? name = some e)
    (hnone : ∀ value ∈ e.values, ¬ Admits m.context value.condition) : warned := by
  rcases h.unconditional with hwarned | hvalues
  · exact hwarned
  · obtain ⟨value, hmem, hcondition⟩ := hvalues e (List.mem_of_find?_eq_some hget)
    refine absurd ?_ (hnone value hmem)
    rw [hcondition]
    exact admits_none

mutual

theorem NodeYields.remains (hcatalog : SoundCatalog m.catalog warned) {level opened : Nat}
    {node : Node} {r : Result} : NodeYields m level opened node r →
      ∀ place, Sound (checkNode m.catalog place node) → ∀ p ∈ r.problems, Remains m.limit warned p
  | .literal _, _, _, _, hp => nomatch hp
  | .thenBranch _ h, place, hsound, p, hp =>
    h.remains hcatalog place (sound_conditional hsound).2.1 p hp
  | .elseBranch _ h, place, hsound, p, hp =>
    h.remains hcatalog place (sound_conditional hsound).2.2 p hp
  | .malformed hc _, place, hsound, _, _ =>
    absurd hc ((sound_conditional hsound).1.decide_ne m.context _)
  | .option hmem _ h, place, hsound, p, hp => by
    rw [unreadable_of_sound_options hsound, Result.report_nil_append] at hp
    exact h.remains hcatalog place (sound_options hsound _ hmem).2 p hp
  | .noOption _, place, hsound, p, hp => by
    rw [unreadable_of_sound_options hsound, Result.report_nil_append] at hp
    rw [List.mem_singleton.1 hp]
    trivial
  | .unknown hget, place, hsound, _, _ => by
    simp [Sound, checkNode, Catalog.contains, hget, Finding.isError] at hsound
  | .noValue hget hnone, place, hsound, p, hp => by
    rw [hcatalog.unreadable_eq_nil hget, Result.report_nil_append] at hp
    rw [List.mem_singleton.1 hp]
    exact hcatalog.noValue hget hnone
  | .value hget hmem _ h, place, hsound, p, hp => by
    rw [hcatalog.unreadable_eq_nil hget, Result.report_nil_append] at hp
    exact h.remains hcatalog (hcatalog.get? hget _ hmem).2 p hp

theorem ValueYields.remains (hcatalog : SoundCatalog m.catalog warned) {level opened : Nat}
    {name text : String} {r : Result} : ValueYields m level opened name text r →
      SoundText m.catalog text → ∀ p ∈ r.problems, Remains m.limit warned p
  | .plain _, _, _, hp => nomatch hp
  | .opened hmark _ hread h, hsound, p, hp => by
    obtain ⟨template, place, hread', hnodes⟩ := hsound hmark
    rw [hread] at hread'
    cases hread'
    exact h.remains hcatalog place hnodes p hp
  | .invalid hmark _ hread, hsound, _, _ => by
    obtain ⟨template, place, hread', -⟩ := hsound hmark
    rw [hread] at hread'
    cases hread'
  -- the limit is named for what stands too deep and for what the budget does not allow
  | .closed _ _, _, p, hp => by
    rw [List.mem_singleton.1 hp]
    exact rfl

theorem Yields.remains (hcatalog : SoundCatalog m.catalog warned) {level opened : Nat}
    {nodes : List Node} {r : Result} : Yields m level opened nodes r →
      ∀ place, Sound (checkNodes m.catalog place nodes) → ∀ p ∈ r.problems, Remains m.limit warned p
  | .nil, _, _, _, hp => nomatch hp
  | .cons hnode h, place, hsound, p, hp => by
    rw [checkNodes, sound_append] at hsound
    rcases List.mem_append.1 hp with hp | hp
    · exact hnode.remains hcatalog place hsound.1 p hp
    · exact h.remains hcatalog place hsound.2 p hp

end

end

/-! ## 3. Variations of checked templates -/

theorem mem_of_mem_reportOnce {reported : List String} {ps : List Problem} {p : Problem}
    (h : p ∈ reportOnce reported ps) : p ∈ ps := by
  induction ps generalizing reported with
  | nil => exact h
  | cons q ps ih =>
    rw [reportOnce] at h
    split at h
    · rcases List.mem_cons.1 h with rfl | h
      · exact List.mem_cons_self
      · exact List.mem_cons_of_mem q (ih h)
    · split at h
      · exact List.mem_cons_of_mem q (ih h)
      · rcases List.mem_cons.1 h with rfl | h
        · exact List.mem_cons_self
        · exact List.mem_cons_of_mem q (ih h)

/-- An entry without warnings has a value without a condition. -/
theorem exists_unconditional (catalog : Catalog) {e : Entry}
    (h : ∀ f ∈ checkEntry catalog e, f.isError = true) :
    ∃ value ∈ e.values, value.condition = none := by
  unfold checkEntry at h
  dsimp only at h
  simp only [List.append_assoc, List.forall_mem_append] at h
  obtain ⟨hfew, hconditional, -⟩ := h
  -- with no value at all every value has a condition, so the first warning is needed as well
  have hlength : ¬ e.values.length < 2 := by
    intro hlt
    rw [if_pos hlt] at hfew
    exact absurd (hfew _ List.mem_cons_self) (by simp [Finding.isError])
  have hnot : ¬ e.values.all (fun value => value.condition.isSome) = true := by
    intro hall
    have hne : e.values.length ≠ 0 := by omega
    rw [if_pos (by simp [hne, hall])] at hconditional
    exact absurd (hconditional _ List.mem_cons_self) (by simp [Finding.isError])
  simpa using hnot

theorem soundCatalog_of_lint {template : Template} {catalog : Catalog}
    (h : (lint template catalog).errors = []) :
    Sound (checkNodes catalog .template template.nodes) ∧
      SoundCatalog catalog ((lint template catalog).warnings ≠ []) := by
  have hsound : Sound (lint template catalog).findings := by
    intro f hf
    have hnot := List.filter_eq_nil_iff.1 h f hf
    simpa using hnot
  rw [lint, sound_append, sound_flatMap] at hsound
  refine ⟨hsound.1, hsound.2, ?_⟩
  by_cases hwarnings : (lint template catalog).warnings = []
  · right
    intro e he
    refine exists_unconditional catalog fun f hf => ?_
    have hmem : f ∈ (lint template catalog).findings :=
      List.mem_append_right _ (List.mem_flatMap.2 ⟨e, he, hf⟩)
    have hnot := List.filter_eq_nil_iff.1 hwarnings f hmem
    simpa using hnot
  · exact .inl hwarnings

/-- Without errors among the findings, a variation meets no condition that cannot be read, no
unknown variable and no value that is no template; and without warnings no variable is left without
a value. -/
theorem problems_of_lint (r : Request) (limits : Limits) (seed : String) (index : Nat)
    (h : (lint r.template r.catalog).errors = []) :
    ∀ p ∈ (r.variation limits seed index).problems,
      (∃ group, p = .noEligibleOption group) ∨
        (∃ name, p = .maxRecursionExceeded name limits.maxRecursionDepth) ∨
          ∃ name, p = .noEligibleValue name ∧ (lint r.template r.catalog).warnings ≠ [] := by
  obtain ⟨hnodes, hcatalog⟩ := soundCatalog_of_lint h
  obtain ⟨result, hyields, -, hproblems⟩ := exists_yields r limits seed index
  intro p hp
  rw [hproblems] at hp
  have hremains : Remains limits.maxRecursionDepth ((lint r.template r.catalog).warnings ≠ []) p :=
    hyields.remains hcatalog .template hnodes p (mem_of_mem_reportOnce hp)
  cases p with
  | noEligibleOption group => exact .inl ⟨group, rfl⟩
  | maxRecursionExceeded name limit =>
    obtain rfl : limit = limits.maxRecursionDepth := hremains
    exact .inr (.inl ⟨name, rfl⟩)
  | noEligibleValue name => exact .inr (.inr ⟨name, rfl, hremains⟩)
  | malformedCondition | unknownVariable | invalidValueTemplate => exact hremains.elim

/-- Two variables that open each other, in which nothing is found. -/
def endless : Request where
  template := ⟨[.conditional "level > 5" [.variable "metal"]
    (some [.optionGroup 0 [⟨"dim", some "level < 2", [.variable "shade"]⟩]])]⟩
  catalog := (Catalog.empty.insertValid
    ⟨"metal", none, [⟨"iron", 1, none⟩, ⟨"\x7b\x7bshade\x7d\x7d gold", 2, some "level > 7"⟩]⟩
      (by decide)).insertValid
    ⟨"shade", none, [⟨"dark", 1, none⟩, ⟨"[[x \x7b\x7bmetal\x7d\x7d", 1, none⟩]⟩ (by decide)
  context := ⟨[("level", .number 8)]⟩

/-- Nothing is found in them, and still what lies too deep is reported. -/
theorem problems_of_lint_endless :
    (lint endless.template endless.catalog).errors = [] ∧
      (endless.variation ⟨2, 5, 3⟩ "seed" 5).problems = [.maxRecursionExceeded "metal" 2] ∧
      ∀ p ∈ (endless.variation ⟨2, 5, 3⟩ "seed" 5).problems,
        (∃ group, p = .noEligibleOption group) ∨
          (∃ name, p = .maxRecursionExceeded name 2) ∨
            ∃ name, p = .noEligibleValue name ∧
              (lint endless.template endless.catalog).warnings ≠ [] := by
  have hclean : (lint endless.template endless.catalog).errors = [] := by decide +kernel
  have hdeep : (endless.variation ⟨2, 5, 3⟩ "seed" 5).problems
      = [.maxRecursionExceeded "metal" 2] := by decide +kernel
  exact ⟨hclean, hdeep, problems_of_lint endless ⟨2, 5, 3⟩ "seed" 5 hclean⟩

end SeededText
