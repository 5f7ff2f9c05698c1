/-!
# Finding a pattern in a text

Readers of this library look for the first place where a short pattern stands and go on after
it.  `cut?` is that search: it gives the text before the pattern and the text after it.  The law
`cut?_eq_some` says that the three parts make up the text again.
-/

namespace SeededText.Text

/-- What follows the pattern in a text that begins with it. -/
def stripFront? : (pattern cs : List Char) → Option (List Char)
  | [], cs => some cs
  | _ :: _, [] => none
  | p :: ps, c :: cs => if p = c then stripFront? ps cs else none

/-- The text before and the text after the first place where `pattern` stands. -/
def cut? (pattern cs : List Char) : Option (List Char × List Char) :=
  match stripFront? pattern cs with
  | some after => some ([], after)
  | none =>
    match cs with
    | [] => none
    | c :: rest => (cut? pattern rest).map fun (before, after) => (c :: before, after)

/-- The pattern stands somewhere in the text. -/
def holds (pattern cs : List Char) : Bool :=
  match stripFront? pattern cs with
  | some _ => true
  | none =>
    match cs with
    | [] => false
    | _ :: rest => holds pattern rest

/-- A text begins with a pattern exactly when it is the pattern and what follows it. -/
theorem stripFront?_eq_some_iff {pattern cs after : List Char} :
    stripFront? pattern cs = some after ↔ cs = pattern ++ after := by
  fun_induction stripFront? pattern cs with
  | case1 cs => simp
  | case2 => simp
  | case3 p ps cs ih => simp [ih]
  | case4 p ps c cs h => simp [Ne.symm h]

/-- The parts that `cut?` gives make up the text, with the pattern between them. -/
theorem cut?_eq_some {pattern cs before after : List Char}
    (h : cut? pattern cs = some (before, after)) : cs = before ++ pattern ++ after := by
  fun_induction cut? pattern cs generalizing before with
  | case1 cs rest hrest =>
    cases h
    simpa using stripFront?_eq_some_iff.1 hrest
  | case2 => simp at h
  | case3 c cs hrest ih =>
    simp only [Option.map_eq_some_iff] at h
    obtain ⟨⟨b, a⟩, hcut, heq⟩ := h
    cases heq
    simpa using ih hcut

/-- A text that holds a pattern is one that can be cut at it. -/
theorem holds_eq_isSome_cut? (pattern cs : List Char) :
    holds pattern cs = (cut? pattern cs).isSome := by
  fun_induction holds pattern cs with
  | case1 cs after h => unfold cut?; simp [h]
  | case2 h => unfold cut?; simp [h]
  | case3 c cs h ih => unfold cut?; simpa [h] using ih

end SeededText.Text
