import SeededText.Template.Reader
import SeededText.Expansion.Selection
import SeededText.Expansion.Step

/-!
# Expanding a template

An expansion walks the nodes of a template from left to right and leaves a trace.  The walk of a
node is a `Step`, and the walk of several is their steps one after another.

A variable is replaced by the text that its draw picks.  A text that holds a mark, double braces or
double brackets, is opened: read as a template and walked in its turn, one level deeper.  Two
limits keep this finite whatever the catalog says.  `expandVariable` goes down on the levels that
are left, and the tally's budget goes down with every value that is opened; beyond either limit
the text is written as it is, and each variable to which this happens is reported once.
-/

namespace SeededText

/-! ## 1. What stays the same during an expansion -/

/-- The surroundings of an expansion: where variables and facts come from, the nesting limit, and
the seed material of the variation. -/
structure Setting where
  catalog : Catalog
  context : Context
  maxLevel : Nat
  material : String

/-- The text holds a mark and so may have something to expand. -/
def hasMark (text : String) : Bool :=
  Text.holds ['\x7b', '\x7b'] text.toList || Text.holds ['[', '['] text.toList

/-- The text that stands for a variable without a value. -/
def placeholder (name : String) : String :=
  "\x7b\x7b" ++ name ++ "\x7d\x7d"

/-! ## 2. Conditionals and option groups -/

/-- One of two steps, by a condition; one that cannot be read is recorded and counts as false. -/
def chooseBranch (s : Setting) (condition : String) (thenStep elseStep : Step) : Step :=
  match decideCondition condition s.context with
  | .ok true => thenStep
  | .ok false => elseStep
  | .error e => (Step.report [.malformedCondition e]).andThen elseStep

/-- An option of a group: its condition, and the walk of its body. -/
structure Branch where
  condition : Option String
  walk : Step

/-- One of the admitted branches of a group, by a draw. -/
def chooseOption (s : Setting) (index : Nat) (branches : List Branch) : Step :=
  .useSlot (.optionGroup index) fun key =>
    let a := Admission.of s.context Branch.condition branches
    (Step.report a.problems).andThen <|
      match (Draw.index? (key.material s.material) a.admitted.length).bind (a.admitted[·]?) with
      | none => .report [.noEligibleOption index]
      | some branch => (Step.emit [.draw key]).andThen branch.walk

/-! ## 3. Walking nodes -/

mutual

/-- The walk of a node; `expand` is the walk of a variable. -/
def walkNode (s : Setting) (expand : String → Step) : Node → Step
  | .literal text => .emit [.text text]
  | .variable name => expand name
  | .conditional condition thenBranch none =>
    chooseBranch s condition (walkNodes s expand thenBranch) .skip
  | .conditional condition thenBranch (some elseBranch) =>
    chooseBranch s condition (walkNodes s expand thenBranch) (walkNodes s expand elseBranch)
  | .optionGroup index options => chooseOption s index (walkOptions s expand options)

/-- The walk of nodes from left to right. -/
def walkNodes (s : Setting) (expand : String → Step) : List Node → Step
  | [] => .skip
  | node :: nodes => (walkNode s expand node).andThen (walkNodes s expand nodes)

/-- The branches that the options of a group are. -/
def walkOptions (s : Setting) (expand : String → Step) : List (Choice Node) → List Branch
  | [] => []
  | ⟨_, condition, body⟩ :: options =>
    ⟨condition, walkNodes s expand body⟩ :: walkOptions s expand options

end

/-- Walking nodes and then others is one walk of all of them. -/
theorem walkNodes_append (s : Setting) (expand : String → Step) (before after : List Node) :
    walkNodes s expand (before ++ after)
      = (walkNodes s expand before).andThen (walkNodes s expand after) := by
  induction before with
  | nil => simp [walkNodes]
  | cons node nodes ih => simp [walkNodes, ih, Step.andThen_assoc]

/-! ## 4. Variables -/

/-- A value with marks that is not opened: written as it is, and reported if its variable was not
reported before. -/
def leaveClosed (s : Setting) (name text : String) : Step :=
  .ask fun tally =>
    if tally.reported.contains name then
      .emit [.closed name, .text text]
    else
      (Step.update fun tally => { tally with reported := name :: tally.reported }).andThen <|
        .emit [.closed name, .problem (.maxRecursionExceeded name s.maxLevel), .text text]

/-- A value with marks that is opened if the budget allows it: read as a template and walked, or
written as it is if it is no template. -/
def openValue (s : Setting) (level : Nat) (walk : List Node → Step) (name text : String) : Step :=
  .ask fun tally =>
    if tally.budget = 0 then
      leaveClosed s name text
    else
      let opened : Step :=
        match Template.read text with
        | .ok template => walk template.nodes
        | .error e => .emit [.problem (.invalidValueTemplate name e), .text text]
      (Step.update fun tally => { tally with budget := tally.budget - 1 }).andThen <|
        (Step.emit [.opened name level]).andThen opened

/-- A reference to a variable: its slot is used, its conditions are looked at, a draw picks a text;
`nested` takes the texts with marks. -/
def reference (s : Setting) (nested : (name text : String) → Step) (name : String) : Step :=
  .useSlot (.variable name) fun key =>
    let e := s.catalog.eligible s.context name
    (Step.report (e.malformed.map .malformedCondition)).andThen <|
      match e.pick name (key.material s.material) with
      | .error problem => .emit [.problem problem, .text (placeholder name)]
      | .ok text =>
        (Step.emit [.draw key]).andThen <|
          if hasMark text then nested name text else .emit [.text text]

/-- The walk of a variable where values may be opened `levels` deep. -/
def expandVariable (s : Setting) : (levels : Nat) → String → Step
  | 0 => reference s (leaveClosed s)
  | levels + 1 =>
    reference s (openValue s (s.maxLevel - levels) (walkNodes s (expandVariable s levels)))

/-- The trace of a template's expansion with some budget. -/
def expandTemplate (s : Setting) (budget : Nat) (template : Template) : Trace :=
  (walkNodes s (expandVariable s s.maxLevel) template.nodes).events (.start budget)

end SeededText
