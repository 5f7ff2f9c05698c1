import SeededText.Proofs.Expansion.Batches
import SeededText.Proofs.Template.Flat

/-!
# Text that comes out as it went in

An expansion changes a text at its tags only.  Where the catalog knows none of a flat template's
variables, every reference writes its placeholder, which is the reference without its blanks, and so
the whole text comes out tightened, in every variation.  Reading it gives the template back.

Static templates are the case without references: they come out as they went in.  A text without
marks is one of them, so writing it at once, as an expansion does with such values, and reading and
walking it come to the same.
-/

namespace SeededText

/-! ## 1. Walks that write what is printed -/

section

variable {s : Setting} {name : String} {nodes : List Node}

theorem toList_placeholder (name : String) :
    (placeholder name).toList = (Node.variable name).spelling := by
  rw [placeholder, String.toList_append, String.toList_append]
  rfl

/-- A variable that the catalog does not know writes its placeholder and is reported, on every level
and whatever was walked before. -/
theorem expandVariable_unknown (hunknown : s.catalog.get? name = none) (levels : Nat)
    (tally : Tally) :
    Trace.text ((expandVariable s levels name).events tally) = placeholder name ∧
      Trace.problems ((expandVariable s levels name).events tally) = [.unknownVariable name] := by
  have hreference : ∀ nested, (reference s nested name).events tally
      = [.use (tally.nextKey (.variable name)), .problem (.unknownVariable name),
          .text (placeholder name)] := by
    intro nested
    simp [reference, eligible_unknown hunknown, Eligibility.pick, Step.report]
  have hevents : (expandVariable s levels name).events tally
      = [.use (tally.nextKey (.variable name)), .problem (.unknownVariable name),
          .text (placeholder name)] := by
    cases levels with
    | zero => exact hreference _
    | succ levels => exact hreference _
  rw [hevents]
  exact ⟨by simp [Trace.text_cons, Trace.written?], rfl⟩

/-- Walking flat nodes writes what they are printed as, and reports every reference once, in order. -/
theorem walkNodes_unknown (hflat : nodes.all Node.isFlat = true)
    (hunknown : ∀ name, .variable name ∈ nodes → s.catalog.get? name = none) (levels : Nat)
    (tally : Tally) :
    (Trace.text ((walkNodes s (expandVariable s levels) nodes).events tally)).toList
        = Node.spellingList nodes ∧
      Trace.problems ((walkNodes s (expandVariable s levels) nodes).events tally)
        = (references nodes).map .unknownVariable := by
  induction nodes generalizing tally with
  | nil => exact ⟨rfl, rfl⟩
  | cons node nodes ih =>
    rw [List.all_cons, Bool.and_eq_true] at hflat
    have hlater := fun tally =>
      ih hflat.2 (fun name hmem => hunknown name (List.mem_cons_of_mem _ hmem)) tally
    rw [walkNodes, Step.events_andThen, Trace.text_append, Trace.problems_append,
      String.toList_append, (hlater _).1, (hlater _).2, references_cons node nodes,
      List.map_append, Node.spellingList]
    cases node with
    | literal text =>
      rw [walkNode, Step.events_emit]
      exact ⟨by simp [Trace.text_cons, Trace.written?, Node.spelling], rfl⟩
    | «variable» name =>
      obtain ⟨htext, hproblems⟩ :=
        expandVariable_unknown (hunknown name List.mem_cons_self) levels tally
      rw [walkNode, htext, hproblems, toList_placeholder]
      exact ⟨rfl, rfl⟩
    | conditional | optionGroup => cases hflat.1

/-- Walking literals writes them and does nothing else, whatever variables are walked by. -/
theorem walkNodes_static (expand : String → Step) (hstatic : nodes.all Node.isLiteral = true) :
    ∃ events, walkNodes s expand nodes = .emit events ∧
      (Trace.text events).toList = Node.spellingList nodes ∧ Trace.problems events = [] := by
  induction nodes with
  | nil => exact ⟨[], rfl, rfl, rfl⟩
  | cons node nodes ih =>
    rw [List.all_cons, Bool.and_eq_true] at hstatic
    obtain ⟨events, hwalk, htext, hproblems⟩ := ih hstatic.2
    cases node with
    | literal text =>
      refine ⟨.text text :: events, ?_, ?_, ?_⟩
      · rw [walkNodes, hwalk]
        rfl
      · rw [Trace.text_cons, String.toList_append, htext]
        rfl
      · exact hproblems
    | «variable» | conditional | optionGroup => cases hstatic.1

end

/-! ## 2. Runs that repeat themselves -/

/-- Every run, whatever its limits, its seed and its count, makes this text each time, and meets these
problems each time. -/
def Request.Repeats (r : Request) (text : String) (problems : List Problem) : Prop :=
  ∀ (limits : Limits) (fresh : String) (given : Option String) (count : Nat),
    1 ≤ count → count ≤ limits.maxVariations →
      ∃ run, r.run limits fresh given count = .ok run ∧
        run.variations = List.replicate count text ∧
        run.diagnostics
          = (List.range count).flatMap fun index => problems.map fun problem => ⟨index, problem⟩

section

variable {r : Request} {s text : String} {problems : List Problem} {template : Template}

theorem repeats_of_variation
    (h : ∀ limits seed index, r.variation limits seed index = ⟨text, problems⟩) :
    r.Repeats text problems := by
  intro limits fresh given count hpos hmax
  refine ⟨_, run_of_count hpos hmax, ?_, ?_⟩
  · simp [Request.batch, h]
  · refine congrArg (fun part => (List.range count).flatMap part) (funext fun index => ?_)
    rw [Request.diagnosticsOf, h]

/-- A flat template over a catalog that knows none of its variables makes what it is printed as. -/
theorem variation_unknown (hflat : r.template.isFlat = true)
    (hunknown : ∀ name, .variable name ∈ r.template.nodes → r.catalog.contains name = false)
    (limits : Limits) (seed : String) (index : Nat) :
    r.variation limits seed index
      = ⟨r.template.print, (references r.template.nodes).map .unknownVariable⟩ := by
  have hget : ∀ name, .variable name ∈ r.template.nodes →
      (r.setting limits seed index).catalog.get? name = none := by
    intro name hmem
    have hcontains := hunknown name hmem
    rwa [Catalog.contains, Option.isSome_eq_false_iff, Option.isNone_iff_eq_none] at hcontains
  obtain ⟨htext, hproblems⟩ := walkNodes_unknown hflat hget limits.maxRecursionDepth
    (.start limits.maxExpansions)
  have hprint : (r.trace limits seed index).text = r.template.print := by
    rw [Template.print, ← htext, String.ofList_toList]
    rfl
  rw [Request.variation, hprint]
  exact congrArg _ hproblems

/-- Walking a static template that was read from a text writes the text. -/
theorem walk_of_isStatic (hread : Template.read text = .ok template)
    (hstatic : template.isStatic = true) (s : Setting) (expand : String → Step) :
    ∃ events, walkNodes s expand template.nodes = .emit events ∧
      Trace.text events = text ∧ Trace.problems events = [] := by
  obtain ⟨events, hwalk, htext, hproblems⟩ := walkNodes_static (s := s) expand hstatic
  refine ⟨events, hwalk, ?_, hproblems⟩
  rw [← print_of_isStatic hread hstatic, Template.print, ← htext, String.ofList_toList]

/-- The text of a value without marks is a static template, and walking it is writing it. -/
theorem read_static_of_no_mark (h : hasMark text = false) :
    ∃ template, Template.read text = .ok template ∧ template.isStatic = true ∧
      ∀ (s : Setting) (expand : String → Step), ∃ events,
        walkNodes s expand template.nodes = .emit events ∧
          Trace.text events = text ∧ Trace.problems events = [] := by
  have hread := read_of_no_mark h
  have hstatic := isStatic_plainNodes text
  exact ⟨_, hread, hstatic, walk_of_isStatic hread hstatic⟩

end

/-! ## 3. Texts that survive -/

/-- Text outside tags survives.  A flat template over a catalog that knows none of its variables comes
out as it was written, without the blanks in its references, which are reported in order; and what
comes out is read as the same template.  A static template comes out as it was written, whatever the
catalog.  A text without marks is one, so there is no need to read it. -/
theorem text_survives :
    (∀ (s : String) (template : Template) (catalog : Catalog) (context : Context),
      Template.read s = .ok template → template.isFlat = true →
      (∀ name, .variable name ∈ template.nodes → catalog.contains name = false) →
        ∃ tight : String, Tightens template.nodes s.toList tight.toList ∧
          Template.read tight = .ok template ∧
          Request.Repeats ⟨template, catalog, context⟩ tight
            ((references template.nodes).map .unknownVariable)) ∧
    (∀ (s : String) (template : Template) (catalog : Catalog) (context : Context),
      Template.read s = .ok template → template.isStatic = true →
        Request.Repeats ⟨template, catalog, context⟩ s []) ∧
    ∀ s : String, hasMark s = false →
      ∃ template, Template.read s = .ok template ∧ template.isStatic = true ∧
        ∀ (setting : Setting) (expand : String → Step), ∃ events,
          walkNodes setting expand template.nodes = .emit events ∧
            Trace.text events = s ∧ Trace.problems events = [] := by
  refine ⟨?_, ?_, fun _ => read_static_of_no_mark⟩
  · intro s template catalog context hread hflat hunknown
    obtain ⟨htightens, hagain⟩ := tightens_of_read hread hflat
    exact ⟨template.print, htightens, hagain,
      repeats_of_variation (variation_unknown hflat hunknown)⟩
  · intro s template catalog context hread hstatic
    -- there is no reference that the catalog might know
    have hunknown : ∀ name, .variable name ∈ template.nodes → catalog.contains name = false := by
      intro name hmem
      have hliteral := List.all_eq_true.1 hstatic _ hmem
      cases hliteral
    have hrepeats := repeats_of_variation
      (variation_unknown (r := ⟨template, catalog, context⟩) (isFlat_of_isStatic hstatic) hunknown)
    rwa [print_of_isStatic hread hstatic, references_of_isStatic hstatic] at hrepeats

/-- Double braces in front of a reference and around what is no name, brackets that are never closed,
and blanks in a reference. -/
def strayText : String :=
  "\x7b\x7b\x7b\x7b ghost\t\x7d\x7d [[x \x7b\x7btwo words\x7d\x7d\x7b\x7bghost\x7d\x7d\x7d"

theorem text_survives_stray :
    ∃ (template : Template) (tight : String), Template.read strayText = .ok template ∧
      Tightens template.nodes strayText.toList tight.toList ∧
      Template.read tight = .ok template ∧
      Request.Repeats ⟨template, .empty, .empty⟩ tight
        [.unknownVariable "ghost", .unknownVariable "ghost"] := by
  have hread : Template.read strayText
      = .ok ⟨[.literal "\x7b\x7b", .variable "ghost", .literal " [[x \x7b\x7btwo words\x7d\x7d",
          .variable "ghost", .literal "\x7d"]⟩ := by
    decide +kernel
  obtain ⟨tight, htightens, hagain, hrepeats⟩ :=
    text_survives.1 _ _ .empty .empty hread rfl fun _ _ => rfl
  exact ⟨_, tight, hread, htightens, hagain, hrepeats⟩

end SeededText
