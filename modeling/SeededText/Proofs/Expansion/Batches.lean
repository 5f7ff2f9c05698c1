import Mathlib.Data.List.Nodup
import SeededText.Expansion.Run

/-!
# Runs of different lengths

A run collects the problems of all its variations in one list, each tagged with the index of its
variation.  Nothing of one variation goes into the next, so the list is the variations' own lists one
after another, and picking diagnostics by their variation is picking variations by their index:
`filter_diagnostics`.  Everything a caller may do with the list comes down to that.  A shorter run is
read off a longer one, and one variation's problems off any run that makes it.
-/

namespace SeededText

section

variable {r : Request} {limits : Limits} {fresh seed : String} {given : Option String}
  {count index m n : Nat} {run : Run}

/-! ## 1. Diagnostics by their variation -/

/-- The problems of one variation, as its part of a run's diagnostics. -/
def Request.diagnosticsOf (r : Request) (limits : Limits) (seed : String) (index : Nat) :
    List Diagnostic :=
  (r.variation limits seed index).problems.map fun problem => ⟨index, problem⟩

theorem variation_of_mem_diagnosticsOf {d : Diagnostic}
    (h : d ∈ r.diagnosticsOf limits seed index) : d.variation = index := by
  obtain ⟨problem, -, rfl⟩ := List.mem_map.1 h
  rfl

theorem map_problem_diagnosticsOf :
    (r.diagnosticsOf limits seed index).map Diagnostic.problem
      = (r.variation limits seed index).problems := by
  rw [Request.diagnosticsOf, List.map_map]
  exact List.map_id _

/-- One variation's diagnostics are picked all or none. -/
theorem filter_diagnosticsOf (p : Nat → Bool) :
    (r.diagnosticsOf limits seed index).filter (fun d => p d.variation)
      = if p index then r.diagnosticsOf limits seed index else [] := by
  split
  · next hp =>
    refine List.filter_eq_self.2 fun d hd => ?_
    rw [variation_of_mem_diagnosticsOf hd]
    exact hp
  · next hp =>
    refine List.filter_eq_nil_iff.2 fun d hd => ?_
    rw [variation_of_mem_diagnosticsOf hd]
    exact hp

/-- Picking diagnostics by their variation is picking variations. -/
theorem filter_diagnostics (p : Nat → Bool) (indices : List Nat) :
    (indices.flatMap (r.diagnosticsOf limits seed)).filter (fun d => p d.variation)
      = (indices.filter p).flatMap (r.diagnosticsOf limits seed) := by
  induction indices with
  | nil => rfl
  | cons index indices ih =>
    rw [List.flatMap_cons, List.filter_append, filter_diagnosticsOf, ih, List.filter_cons]
    split <;> rfl

/-! ## 2. What a run is made of -/

/-- The run of some variations, without a look at the limit on their number. -/
def Request.batch (r : Request) (limits : Limits) (seed : String) (seeded : Bool) (count : Nat) :
    Run where
  seed := seed
  seeded := seeded
  variations := (List.range count).map fun index => (r.variation limits seed index).text
  diagnostics := (List.range count).flatMap (r.diagnosticsOf limits seed)

/-- A count is refused when it is zero or above the limit, and every other is served. -/
theorem run_eq_batch (r : Request) (limits : Limits) (fresh : String) (given : Option String)
    (count : Nat) :
    r.run limits fresh given count =
      if count = 0 then .error .zeroCount
      else if limits.maxVariations < count then
        .error (.tooManyVariations count limits.maxVariations)
      else .ok (r.batch limits (given.getD fresh) given.isSome count) := by
  unfold Request.run Request.batch Request.diagnosticsOf
  simp only [List.map_map, List.flatMap_map]
  rfl

theorem run_of_count (hpos : 1 ≤ count) (hmax : count ≤ limits.maxVariations) :
    r.run limits fresh given count
      = .ok (r.batch limits (given.getD fresh) given.isSome count) := by
  rw [run_eq_batch, if_neg (Nat.ne_of_gt hpos), if_neg (Nat.not_lt.2 hmax)]

/-- A run answers for each of its variations as that variation alone does. -/
structure Request.Makes (r : Request) (limits : Limits) (count : Nat) (run : Run) : Prop where
  length : run.variations.length = count
  text : ∀ index < count,
    run.variations[index]? = some (r.variation limits run.seed index).text
  problemsOf : ∀ index < count,
    run.problemsOf index = (r.variation limits run.seed index).problems
  below : ∀ d ∈ run.diagnostics, d.variation < count
  ordered : (run.diagnostics.map Diagnostic.variation).Pairwise (· ≤ ·)

theorem problemsOf_batch {seeded : Bool} (h : index < count) :
    (r.batch limits seed seeded count).problemsOf index
      = (r.variation limits seed index).problems := by
  have hone : (List.range count).filter (fun i => decide (i = index)) = [index] := by
    rw [List.filter_eq, List.count_eq_one_of_mem List.nodup_range (List.mem_range.2 h)]
    rfl
  unfold Run.problemsOf Request.batch
  dsimp only
  rw [filter_diagnostics (fun i => decide (i = index)), hone, List.flatMap_singleton,
    map_problem_diagnosticsOf]

theorem makes_batch (r : Request) (limits : Limits) (seed : String) (seeded : Bool) (count : Nat) :
    r.Makes limits count (r.batch limits seed seeded count) where
  length := by simp [Request.batch]
  text index h := by simp [Request.batch, h]
  problemsOf _ := problemsOf_batch
  below d hd := by
    obtain ⟨index, hindex, hd⟩ := List.mem_flatMap.1 hd
    rw [variation_of_mem_diagnosticsOf hd]
    exact List.mem_range.1 hindex
  ordered := by
    rw [Request.batch, List.pairwise_map, List.pairwise_flatMap]
    constructor
    · intro index _
      refine List.pairwise_of_forall_mem_list fun d hd d' hd' => Nat.le_of_eq ?_
      rw [variation_of_mem_diagnosticsOf hd, variation_of_mem_diagnosticsOf hd']
    · refine List.pairwise_lt_range.imp fun hlt d hd d' hd' => ?_
      rw [variation_of_mem_diagnosticsOf hd, variation_of_mem_diagnosticsOf hd']
      exact Nat.le_of_lt hlt

/-- A shorter run is the beginning of a longer one. -/
theorem batch_prefix (r : Request) (limits : Limits) (seed : String) (seeded : Bool) (h : m ≤ n) :
    (r.batch limits seed seeded m).variations = (r.batch limits seed seeded n).variations.take m ∧
      (r.batch limits seed seeded m).diagnostics
        = (r.batch limits seed seeded n).diagnostics.filter fun d => d.variation < m := by
  have hbelow : (List.range n).filter (fun i => decide (i < m)) = List.range m := by
    obtain ⟨more, rfl⟩ := Nat.exists_eq_add_of_le h
    rw [List.range_add, List.filter_append, List.filter_eq_self.2 (by simp),
      List.filter_eq_nil_iff.2 (by simp), List.append_nil]
  constructor
  · rw [Request.batch, Request.batch, ← List.map_take, List.take_range, Nat.min_eq_left h]
  · rw [Request.batch, Request.batch, filter_diagnostics (fun i => decide (i < m)), hbelow]

end

/-! ## 3. Any two counts -/

/-- Runs agree with each other and with single variations.  A count of zero or above the limit is
refused and nothing else is.  Of two counts that are served the smaller run is the beginning of the
larger one, each answers for its variations as these do alone, and repeating a run with the seed it
reports gives the same. -/
theorem batches_agree (r : Request) (limits : Limits) (fresh : String) (given : Option String) :
    (∀ count fault, r.run limits fresh given count = .error fault ↔
      count = 0 ∧ fault = .zeroCount ∨
        limits.maxVariations < count ∧
          fault = .tooManyVariations count limits.maxVariations) ∧
    ∀ m n, 1 ≤ m → m ≤ n → n ≤ limits.maxVariations →
      ∃ short long, r.run limits fresh given m = .ok short ∧
        r.run limits fresh given n = .ok long ∧
        r.Makes limits m short ∧ r.Makes limits n long ∧
        short.seed = given.getD fresh ∧ long.seed = given.getD fresh ∧
        short.variations = long.variations.take m ∧
        (short.diagnostics = long.diagnostics.filter fun d => d.variation < m) ∧
        ∀ other, r.run limits other (some long.seed) n = .ok { long with seeded := true } := by
  refine ⟨fun count fault => ?_, fun m n hpos hle hmax => ?_⟩
  · rw [run_eq_batch]
    by_cases hzero : count = 0
    · simp [hzero, eq_comm]
    · by_cases hmax : limits.maxVariations < count
      · simp [hzero, hmax, eq_comm]
      · simp [hzero, hmax]
  · have hshort : m ≤ limits.maxVariations := Nat.le_trans hle hmax
    have hlong : 1 ≤ n := Nat.le_trans hpos hle
    obtain ⟨hvariations, hdiagnostics⟩ :=
      batch_prefix r limits (given.getD fresh) given.isSome hle
    exact ⟨_, _, run_of_count hpos hshort, run_of_count hlong hmax, makes_batch ..,
      makes_batch .., rfl, rfl, hvariations, hdiagnostics, fun _ => run_of_count hlong hmax⟩

end SeededText
