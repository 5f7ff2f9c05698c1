import SeededText.Expansion.Run

/-!
# What a template may come to

The meaning of a template leaves open what the draws decide: a group may come to any of its
admitted options, and a variable to any of its admitted values.  `Yields` says which results nodes
may have, by their structure alone; no seed, no key and no tally stands in it.

A value that holds a mark is opened as long as that is allowed, by the level it stands on and by the
number of values that were opened before it.  Where everything may be opened (`Surroundings.free`)
this is the meaning of the template itself, and a text may come to infinitely many results.
-/

namespace SeededText

/-! ## 1. Results -/

/-- A text, the problems met in order, and how many values were opened. -/
structure Result where
  text : String
  problems : List Problem
  opened : Nat
deriving DecidableEq, Repr

instance : Append Result where
  append first second :=
    ⟨first.text ++ second.text, first.problems ++ second.problems, first.opened + second.opened⟩

/-- Problems and no text. -/
def Result.report (problems : List Problem) : Result :=
  ⟨"", problems, 0⟩

@[simp]
theorem Result.text_append (first second : Result) :
    (first ++ second).text = first.text ++ second.text :=
  rfl

@[simp]
theorem Result.problems_append (first second : Result) :
    (first ++ second).problems = first.problems ++ second.problems :=
  rfl

@[simp]
theorem Result.opened_append (first second : Result) :
    (first ++ second).opened = first.opened + second.opened :=
  rfl

@[simp]
theorem Result.opened_report (problems : List Problem) : (Result.report problems).opened = 0 :=
  rfl

@[simp]
theorem Result.report_nil_append (r : Result) : Result.report [] ++ r = r := by
  show Result.mk _ _ _ = r
  simp [Result.report]

/-! ## 2. Conditions -/

/-- There is no condition, or it is true. -/
def Admits (context : Context) (condition : Option String) : Prop :=
  ∀ source ∈ condition, decideCondition source context = .ok true

/-- The conditions that cannot be read, as problems. -/
def unreadable (context : Context) : List (Option String) → List Problem
  | [] => []
  | none :: conditions => unreadable context conditions
  | some source :: conditions =>
    match decideCondition source context with
    | .ok _ => unreadable context conditions
    | .error e => .malformedCondition e :: unreadable context conditions

/-! ## 3. Nodes -/

/-- Where variables and facts come from, which values may be opened, and the limit that is named
where one may not. -/
structure Surroundings where
  catalog : Catalog
  context : Context
  mayOpen : (level opened : Nat) → Prop
  limit : Nat

/-- The same with every value opened. -/
def Surroundings.free (m : Surroundings) : Surroundings :=
  { m with mayOpen := fun _ _ => True }

/-- The problems of a variable's conditions. -/
def Surroundings.unreadable (m : Surroundings) (e : Entry) : List Problem :=
  SeededText.unreadable m.context (e.values.map Candidate.condition)

mutual

/-- A node on a level, with so many values opened before it, may have the result. -/
inductive NodeYields (m : Surroundings) : (level opened : Nat) → Node → Result → Prop where
  | literal {level opened : Nat} (text : String) :
      NodeYields m level opened (.literal text) ⟨text, [], 0⟩
  | thenBranch {level opened : Nat} {condition : String} {thenBranch : List Node}
      {elseBranch : Option (List Node)} {r : Result} :
      decideCondition condition m.context = .ok true → Yields m level opened thenBranch r →
        NodeYields m level opened (.conditional condition thenBranch elseBranch) r
  | elseBranch {level opened : Nat} {condition : String} {thenBranch : List Node}
      {elseBranch : Option (List Node)} {r : Result} :
      decideCondition condition m.context = .ok false →
        Yields m level opened (elseBranch.getD []) r →
          NodeYields m level opened (.conditional condition thenBranch elseBranch) r
  /-- a condition that cannot be read counts as false -/
  | malformed {level opened : Nat} {condition : String} {thenBranch : List Node}
      {elseBranch : Option (List Node)} {e : MalformedCondition} {r : Result} :
      decideCondition condition m.context = .error e →
        Yields m level opened (elseBranch.getD []) r →
          NodeYields m level opened (.conditional condition thenBranch elseBranch)
            (.report [.malformedCondition e] ++ r)
  | option {level opened index : Nat} {options : List (Choice Node)} {option : Choice Node}
      {r : Result} :
      option ∈ options → Admits m.context option.condition →
        Yields m level opened option.body r →
          NodeYields m level opened (.optionGroup index options)
            (.report (unreadable m.context (options.map Choice.condition)) ++ r)
  | noOption {level opened index : Nat} {options : List (Choice Node)} :
      (∀ option ∈ options, ¬ Admits m.context option.condition) →
        NodeYields m level opened (.optionGroup index options)
          (.report (unreadable m.context (options.map Choice.condition))
            ++ .report [.noEligibleOption index])
  | unknown {level opened : Nat} {name : String} :
      m.catalog.get? name = none →
        NodeYields m level opened (.variable name) ⟨placeholder name, [.unknownVariable name], 0⟩
  | noValue {level opened : Nat} {name : String} {e : Entry} :
      m.catalog.get? name = some e →
        (∀ value ∈ e.values, ¬ Admits m.context value.condition) →
          NodeYields m level opened (.variable name)
            (.report (m.unreadable e) ++ ⟨placeholder name, [.noEligibleValue name], 0⟩)
  | value {level opened : Nat} {name : String} {e : Entry} {value : Candidate} {r : Result} :
      m.catalog.get? name = some e → value ∈ e.values → Admits m.context value.condition →
        ValueYields m level opened name value.text r →
          NodeYields m level opened (.variable name) (.report (m.unreadable e) ++ r)

/-- The text of a variable's value may have the result. -/
inductive ValueYields (m : Surroundings) : (level opened : Nat) → (name text : String) → Result →
    Prop where
  /-- a text without marks stands for itself -/
  | plain {level opened : Nat} {name text : String} :
      hasMark text = false → ValueYields m level opened name text ⟨text, [], 0⟩
  /-- a text with marks is read as a template, one level deeper -/
  | opened {level opened : Nat} {name text : String} {template : Template} {r : Result} :
      hasMark text = true → m.mayOpen (level + 1) opened → Template.read text = .ok template →
        Yields m (level + 1) (opened + 1) template.nodes r →
          ValueYields m level opened name text (⟨"", [], 1⟩ ++ r)
  | invalid {level opened : Nat} {name text : String} {fault : TemplateError} :
      hasMark text = true → m.mayOpen (level + 1) opened → Template.read text = .error fault →
        ValueYields m level opened name text ⟨text, [.invalidValueTemplate name fault], 1⟩
  /-- a text with marks that may not be opened is left as it is -/
  | closed {level opened : Nat} {name text : String} :
      hasMark text = true → ¬ m.mayOpen (level + 1) opened →
        ValueYields m level opened name text ⟨text, [.maxRecursionExceeded name m.limit], 0⟩

/-- Nodes may have the result, from left to right. -/
inductive Yields (m : Surroundings) : (level opened : Nat) → List Node → Result → Prop where
  | nil {level opened : Nat} : Yields m level opened [] (.report [])
  | cons {level opened : Nat} {node : Node} {nodes : List Node} {r r' : Result} :
      NodeYields m level opened node r → Yields m level (opened + r.opened) nodes r' →
        Yields m level opened (node :: nodes) (r ++ r')

end

/-! ## 4. Values left closed -/

/-- The variable that the problem reports as running away. -/
def Problem.runaway? : Problem → Option String
  | .maxRecursionExceeded name _ => some name
  | _ => none

/-- None of the problems reports a variable as running away. -/
def Tame (problems : List Problem) : Prop :=
  ∀ p ∈ problems, p.runaway? = none

theorem tame_append {first second : List Problem} :
    Tame (first ++ second) ↔ Tame first ∧ Tame second :=
  List.forall_mem_append

theorem tame_singleton {p : Problem} (h : p.runaway? = none) : Tame [p] := by
  intro q hq
  rw [List.mem_singleton.1 hq]
  exact h

/-! ## 5. Room for a result -/

/-- The same surroundings where other values may be opened and another limit is named. -/
def Surroundings.within (m : Surroundings) (mayOpen : (level opened : Nat) → Prop) (limit : Nat) :
    Surroundings :=
  { m with mayOpen := mayOpen, limit := limit }

/-- From the level on and with so many values opened before, values may be opened so many levels
deeper and until there are so many more. -/
def Room (mayOpen : (level opened : Nat) → Prop) (level opened depth count : Nat) : Prop :=
  ∀ l o, l ≤ level + depth → o < opened + count → mayOpen l o

theorem Room.mono {mayOpen : (level opened : Nat) → Prop} {level opened depth depth' count count' : Nat}
    (h : Room mayOpen level opened depth count) (hdepth : depth' ≤ depth) (hcount : count' ≤ count) :
    Room mayOpen level opened depth' count' :=
  fun l o hl ho => h l o (by omega) (by omega)

/-- One level deeper, after one more value. -/
theorem Room.succ {mayOpen : (level opened : Nat) → Prop} {level opened depth count : Nat}
    (h : Room mayOpen level opened (depth + 1) (1 + count)) :
    mayOpen (level + 1) opened ∧ Room mayOpen (level + 1) (opened + 1) depth count :=
  ⟨h _ _ (by omega) (by omega), fun l o hl ho => h l o (by omega) (by omega)⟩

/-- After problems that open nothing. -/
theorem Room.later {mayOpen : (level opened : Nat) → Prop} {level opened depth : Nat}
    {problems : List Problem} {r : Result}
    (h : Room mayOpen level opened depth (.report problems ++ r : Result).opened) :
    Room mayOpen level opened depth r.opened :=
  h.mono (Nat.le_refl _) (Nat.le_add_left _ _)

/-- After some of the values. -/
theorem Room.after {mayOpen : (level opened : Nat) → Prop} {level opened depth before count : Nat}
    (h : Room mayOpen level opened depth (before + count)) :
    Room mayOpen level (opened + before) depth count :=
  fun l o hl ho => h l o hl (by omega)

mutual

/-- A result in which nothing was left closed is a result wherever there is room enough for it. -/
theorem NodeYields.exists_room {m : Surroundings} {level opened : Nat} {node : Node} {r : Result} :
    NodeYields m level opened node r → Tame r.problems →
      ∃ depth, ∀ mayOpen limit level' opened', Room mayOpen level' opened' depth r.opened →
        NodeYields (m.within mayOpen limit) level' opened' node r
  | .literal text, _ => ⟨0, fun _ _ _ _ _ => .literal text⟩
  | .thenBranch hc h, ht => by
    obtain ⟨depth, hroom⟩ := h.exists_room ht
    exact ⟨depth, fun _ _ _ _ hr => .thenBranch hc (hroom _ _ _ _ hr)⟩
  | .elseBranch hc h, ht => by
    obtain ⟨depth, hroom⟩ := h.exists_room ht
    exact ⟨depth, fun _ _ _ _ hr => .elseBranch hc (hroom _ _ _ _ hr)⟩
  | .malformed hc h, ht => by
    obtain ⟨depth, hroom⟩ := h.exists_room (tame_append.1 ht).2
    exact ⟨depth, fun _ _ _ _ hr => .malformed hc (hroom _ _ _ _ hr.later)⟩
  | .option hmem hadmits h, ht => by
    obtain ⟨depth, hroom⟩ := h.exists_room (tame_append.1 ht).2
    exact ⟨depth, fun _ _ _ _ hr => .option hmem hadmits (hroom _ _ _ _ hr.later)⟩
  | .noOption hnone, _ => ⟨0, fun _ _ _ _ _ => .noOption hnone⟩
  | .unknown hget, _ => ⟨0, fun _ _ _ _ _ => .unknown hget⟩
  | .noValue hget hnone, _ => ⟨0, fun _ _ _ _ _ => .noValue hget hnone⟩
  | .value hget hmem hadmits h, ht => by
    obtain ⟨depth, hroom⟩ := h.exists_room (tame_append.1 ht).2
    exact ⟨depth, fun _ _ _ _ hr => .value hget hmem hadmits (hroom _ _ _ _ hr.later)⟩

theorem ValueYields.exists_room {m : Surroundings} {level opened : Nat} {name text : String}
    {r : Result} : ValueYields m level opened name text r → Tame r.problems →
      ∃ depth, ∀ mayOpen limit level' opened', Room mayOpen level' opened' depth r.opened →
        ValueYields (m.within mayOpen limit) level' opened' name text r
  | .plain hmark, _ => ⟨0, fun _ _ _ _ _ => .plain hmark⟩
  | .opened hmark _ hread h, ht => by
    obtain ⟨depth, hroom⟩ := h.exists_room ht
    refine ⟨depth + 1, fun _ _ _ _ hr => ?_⟩
    obtain ⟨hopen, hr⟩ := hr.succ
    exact .opened hmark hopen hread (hroom _ _ _ _ hr)
  | .invalid hmark _ hread, _ =>
    ⟨1, fun _ _ _ _ hr => .invalid hmark (hr _ _ (Nat.le_refl _) (Nat.lt_succ_self _)) hread⟩
  | .closed _ _, ht => nomatch ht _ List.mem_cons_self

theorem Yields.exists_room {m : Surroundings} {level opened : Nat} {nodes : List Node}
    {r : Result} : Yields m level opened nodes r → Tame r.problems →
      ∃ depth, ∀ mayOpen limit level' opened', Room mayOpen level' opened' depth r.opened →
        Yields (m.within mayOpen limit) level' opened' nodes r
  | .nil, _ => ⟨0, fun _ _ _ _ _ => .nil⟩
  | .cons hnode h, ht => by
    obtain ⟨depth, hroom⟩ := hnode.exists_room (tame_append.1 ht).1
    obtain ⟨depth', hroom'⟩ := h.exists_room (tame_append.1 ht).2
    refine ⟨max depth depth', fun _ _ _ _ hr => ?_⟩
    exact .cons (hroom _ _ _ _ (hr.mono (Nat.le_max_left _ _) (Nat.le_add_right _ _)))
      (hroom' _ _ _ _ (hr.after.mono (Nat.le_max_right _ _) (Nat.le_refl _)))

end

/-- What nothing was left closed in comes of nodes also where everything may be opened. -/
theorem Yields.free {m : Surroundings} {level opened : Nat} {nodes : List Node} {r : Result}
    (h : Yields m level opened nodes r) (htame : Tame r.problems) :
    Yields m.free level opened nodes r := by
  obtain ⟨depth, hroom⟩ := h.exists_room htame
  exact hroom (fun _ _ => True) m.limit level opened fun _ _ _ _ => trivial

end SeededText
