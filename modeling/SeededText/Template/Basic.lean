/-!
# Templates

A template is a list of nodes.  A node is literal text, a reference to a variable, a conditional
with a then-branch and perhaps an else-branch, or an option group: numbered, with titled choices
of which an expansion walks one.

Conditions are kept as the text the author wrote; reading them is `SeededText.Condition`'s work.
The nesting runs through lists of nodes and lists of choices, so a function on templates comes in
three parts: for a node, for a list of nodes, for a list of choices.
-/

namespace SeededText

/-- One branch of an option group, over the type of the nodes in its body. -/
structure Choice (α : Type) where
  title : String
  condition : Option String
  body : List α
deriving Repr

inductive Node where
  | literal (text : String)
  | variable (name : String)
  /-- one of two branches, by a condition; without an else-branch perhaps nothing -/
  | conditional (condition : String) (thenBranch : List Node) (elseBranch : Option (List Node))
  /-- one of several choices, by a draw; `index` is the group's number -/
  | optionGroup (index : Nat) (options : List (Choice Node))
deriving Repr

/-- A template: its nodes in order. -/
structure Template where
  nodes : List Node
deriving Repr

/-! ## 1. Equality is decidable -/

mutual

/-- Equality of nodes, decided by walking both. -/
def Node.decideEq : (a b : Node) → Decidable (a = b)
  | .literal s, b =>
    match b with
    | .literal t => if h : s = t then isTrue (h ▸ rfl) else isFalse fun e => h (Node.literal.inj e)
    | .variable _ | .conditional .. | .optionGroup .. => isFalse nofun
  | .variable s, b =>
    match b with
    | .variable t => if h : s = t then isTrue (h ▸ rfl) else isFalse fun e => h (Node.variable.inj e)
    | .literal _ | .conditional .. | .optionGroup .. => isFalse nofun
  | .conditional c t none, b =>
    match b with
    | .conditional c' t' none =>
      match decEq c c', Node.decideEqList t t' with
      | isTrue hc, isTrue ht => isTrue (by rw [hc, ht])
      | isFalse hc, _ => isFalse fun e => hc (Node.conditional.inj e).1
      | _, isFalse ht => isFalse fun e => ht (Node.conditional.inj e).2.1
    | .conditional _ _ (some _) => isFalse fun e => nomatch (Node.conditional.inj e).2.2
    | .literal _ | .variable _ | .optionGroup .. => isFalse nofun
  | .conditional c t (some f), b =>
    match b with
    | .conditional c' t' (some f') =>
      match decEq c c', Node.decideEqList t t', Node.decideEqList f f' with
      | isTrue hc, isTrue ht, isTrue hf => isTrue (by rw [hc, ht, hf])
      | isFalse hc, _, _ => isFalse fun e => hc (Node.conditional.inj e).1
      | _, isFalse ht, _ => isFalse fun e => ht (Node.conditional.inj e).2.1
      | _, _, isFalse hf => isFalse fun e => hf (Option.some.inj (Node.conditional.inj e).2.2)
    | .conditional _ _ none => isFalse fun e => nomatch (Node.conditional.inj e).2.2
    | .literal _ | .variable _ | .optionGroup .. => isFalse nofun
  | .optionGroup i os, b =>
    match b with
    | .optionGroup i' os' =>
      match decEq i i', Node.decideEqChoices os os' with
      | isTrue hi, isTrue ho => isTrue (by rw [hi, ho])
      | isFalse hi, _ => isFalse fun e => hi (Node.optionGroup.inj e).1
      | _, isFalse ho => isFalse fun e => ho (Node.optionGroup.inj e).2
    | .literal _ | .variable _ | .conditional .. => isFalse nofun

def Node.decideEqList : (as bs : List Node) → Decidable (as = bs)
  | [], [] => isTrue rfl
  | [], _ :: _ => isFalse nofun
  | _ :: _, [] => isFalse nofun
  | a :: as, b :: bs =>
    match Node.decideEq a b, Node.decideEqList as bs with
    | isTrue h, isTrue hs => isTrue (by rw [h, hs])
    | isFalse h, _ => isFalse fun e => h (List.cons.inj e).1
    | _, isFalse hs => isFalse fun e => hs (List.cons.inj e).2

def Node.decideEqChoices : (as bs : List (Choice Node)) → Decidable (as = bs)
  | [], [] => isTrue rfl
  | [], _ :: _ => isFalse nofun
  | _ :: _, [] => isFalse nofun
  | ⟨t, c, body⟩ :: as, ⟨t', c', body'⟩ :: bs =>
    match decEq t t', decEq c c', Node.decideEqList body body', Node.decideEqChoices as bs with
    | isTrue ht, isTrue hc, isTrue hb, isTrue hs => isTrue (by rw [ht, hc, hb, hs])
    | isFalse ht, _, _, _ => isFalse fun e => ht (Choice.mk.inj (List.cons.inj e).1).1
    | _, isFalse hc, _, _ => isFalse fun e => hc (Choice.mk.inj (List.cons.inj e).1).2.1
    | _, _, isFalse hb, _ => isFalse fun e => hb (Choice.mk.inj (List.cons.inj e).1).2.2
    | _, _, _, isFalse hs => isFalse fun e => hs (List.cons.inj e).2

end

instance : DecidableEq Node := Node.decideEq

deriving instance DecidableEq for Choice

deriving instance DecidableEq for Template

/-! ## 2. Visiting every node -/

mutual

/-- The node itself and then every node inside it, in document order. -/
def Node.visits : Node → List Node
  | .literal text => [.literal text]
  | .variable name => [.variable name]
  | .conditional condition thenBranch none =>
    .conditional condition thenBranch none :: Node.visitsList thenBranch
  | .conditional condition thenBranch (some elseBranch) =>
    .conditional condition thenBranch (some elseBranch) ::
      (Node.visitsList thenBranch ++ Node.visitsList elseBranch)
  | .optionGroup index options => .optionGroup index options :: Node.visitsChoices options

def Node.visitsList : List Node → List Node
  | [] => []
  | node :: nodes => node.visits ++ Node.visitsList nodes

def Node.visitsChoices : List (Choice Node) → List Node
  | [] => []
  | ⟨_, _, body⟩ :: options => Node.visitsList body ++ Node.visitsChoices options

end

/-- Visiting nodes and then others visits all of them. -/
theorem Node.visitsList_append (before after : List Node) :
    Node.visitsList (before ++ after) = Node.visitsList before ++ Node.visitsList after := by
  induction before with
  | nil => rfl
  | cons node nodes ih => simp [Node.visitsList, ih]

/-- Every node of the template, an outer one before those inside it, in document order. -/
def Template.visits (template : Template) : List Node :=
  Node.visitsList template.nodes

/-! ## 3. Variable names -/

/-- The list with `name` at its end, unless it holds the name. -/
def addName (names : List String) (name : String) : List String :=
  if names.contains name then names else names ++ [name]

mutual

/-- The names so far and those that a node refers to, each once. -/
def Node.collectNames (names : List String) : Node → List String
  | .literal _ => names
  | .variable name => addName names name
  | .conditional _ thenBranch none => Node.collectNamesList names thenBranch
  | .conditional _ thenBranch (some elseBranch) =>
    Node.collectNamesList (Node.collectNamesList names thenBranch) elseBranch
  | .optionGroup _ options => Node.collectNamesChoices names options

def Node.collectNamesList (names : List String) : List Node → List String
  | [] => names
  | node :: nodes => Node.collectNamesList (node.collectNames names) nodes

def Node.collectNamesChoices (names : List String) : List (Choice Node) → List String
  | [] => names
  | ⟨_, _, body⟩ :: options => Node.collectNamesChoices (Node.collectNamesList names body) options

end

/-- The distinct variable names of the template, in order of first appearance. -/
def Template.variableNames (template : Template) : List String :=
  Node.collectNamesList [] template.nodes

/-! ## 4. Static templates -/

def Node.isLiteral : Node → Bool
  | .literal _ => true
  | .variable _ | .conditional .. | .optionGroup .. => false

/-- The template has nothing to expand. -/
def Template.isStatic (template : Template) : Bool :=
  template.nodes.all Node.isLiteral

/-! ## 5. Identifiers -/

/-- The character is one of the letters of English. -/
def isLetter (c : Char) : Bool :=
  ('a' ≤ c && c ≤ 'z') || ('A' ≤ c && c ≤ 'Z')

/-- The character may stand in a name after its first letter. -/
def isNameChar (c : Char) : Bool :=
  isLetter c || ('0' ≤ c && c ≤ '9') || c = '_'

/-- A variable name: a letter, then letters, digits and underscores. -/
def isIdentifier : List Char → Bool
  | [] => false
  | c :: cs => isLetter c && cs.all isNameChar

end SeededText
