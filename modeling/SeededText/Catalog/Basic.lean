import SeededText.Catalog.Entry

/-!
# Catalogs

A catalog holds valid entries, one for a name, in the order of their names.  Both facts are part
of the type, so every operation proves that it keeps them: an entry enters through `insert`, which
checks it, or from another catalog through `merge`, which need not.

`insert` puts an entry in the place of the one that has its name.  `ofEntries` builds a catalog
from a list and refuses a name that stands twice.
-/

namespace SeededText

/-- Valid entries in strictly increasing order of their names. -/
structure Catalog where
  entries : List Entry
  sorted : entries.Pairwise fun a b => a.name < b.name
  valid : ∀ e ∈ entries, e.Valid
deriving DecidableEq

namespace Catalog

/-! ## 1. Inserting into a sorted list -/

/-- The list with the entry in the place of its name. -/
def insertIn (e : Entry) : List Entry → List Entry
  | [] => [e]
  | x :: xs =>
    if e.name = x.name then e :: xs
    else if e.name < x.name then e :: x :: xs
    else x :: insertIn e xs

theorem mem_insertIn {e a : Entry} {l : List Entry} (h : a ∈ insertIn e l) : a = e ∨ a ∈ l := by
  induction l with
  | nil => simpa [insertIn] using h
  | cons x xs ih => grind [insertIn]

theorem sorted_insertIn {e : Entry} {l : List Entry}
    (h : l.Pairwise fun a b => a.name < b.name) :
    (insertIn e l).Pairwise fun a b => a.name < b.name := by
  induction l with
  | nil => simp [insertIn]
  | cons x xs ih =>
    have hx := List.pairwise_cons.1 h
    have hmem := @mem_insertIn e
    unfold insertIn
    split
    · exact List.pairwise_cons.2 ⟨fun a ha => by simp_all, hx.2⟩
    · split
      · grind [List.pairwise_cons]
      · refine List.pairwise_cons.2 ⟨fun a ha => ?_, ih hx.2⟩
        grind

/-! ## 2. Operations -/

def empty : Catalog :=
  ⟨[], List.Pairwise.nil, nofun⟩

/-- The catalog with a valid entry in the place of its name. -/
def insertValid (c : Catalog) (e : Entry) (h : e.Valid) : Catalog :=
  ⟨insertIn e c.entries, sorted_insertIn c.sorted, fun _ ha =>
    (mem_insertIn ha).elim (fun he => he ▸ h) (c.valid _)⟩

/-- The catalog with an entry in the place of its name, if the entry is valid. -/
def insert (c : Catalog) (e : Entry) : Except CatalogFault Catalog :=
  match h : e.fault? with
  | some fault => .error fault
  | none => .ok (c.insertValid e (e.fault?_eq_none_iff.1 h))

theorem exists_valid_of_insert_eq_ok {c c' : Catalog} {e : Entry} (h : c.insert e = .ok c') :
    ∃ hvalid, c' = c.insertValid e hvalid := by
  unfold insert at h
  split at h
  · cases h
  · next hfault =>
    cases h
    exact ⟨e.fault?_eq_none_iff.1 hfault, rfl⟩

def get? (c : Catalog) (name : String) : Option Entry :=
  c.entries.find? fun e => e.name = name

def contains (c : Catalog) (name : String) : Bool :=
  (c.get? name).isSome

def size (c : Catalog) : Nat :=
  c.entries.length

def names (c : Catalog) : List String :=
  c.entries.map Entry.name

/-- The catalog with valid entries inserted one after another. -/
def insertAll (c : Catalog) : (es : List Entry) → (∀ e ∈ es, e.Valid) → Catalog
  | [], _ => c
  | e :: es, h =>
    (c.insertValid e (h e List.mem_cons_self)).insertAll es fun a ha =>
      h a (List.mem_cons_of_mem e ha)

/-- Both catalogs' entries; of two with one name, the other's. -/
def merge (c other : Catalog) : Catalog :=
  c.insertAll other.entries other.valid

/-- Adds an entry whose name is new. -/
def addNew (c : Catalog) (e : Entry) : Except CatalogFault Catalog :=
  if c.contains e.name then .error (.duplicateVariable e.name) else c.insert e

/-- The catalog that a list of entries makes up; the first entry at fault names the reason. -/
def ofEntries (es : List Entry) : Except CatalogFault Catalog :=
  es.foldlM addNew empty

/-! ## 3. Looking up after inserting -/

theorem find?_insertIn (e : Entry) (name : String) (l : List Entry)
    (h : l.Pairwise fun a b => a.name < b.name) :
    (insertIn e l).find? (fun a => a.name = name) =
      if e.name = name then some e else l.find? fun a => a.name = name := by
  induction l with
  | nil => by_cases hn : e.name = name <;> simp [insertIn, hn]
  | cons x xs ih =>
    have ih := ih (List.pairwise_cons.1 h).2
    grind [insertIn]

/-- After inserting an entry, its name has it and every other name has what it had. -/
theorem get?_insertValid (c : Catalog) (e : Entry) (h : e.Valid) (name : String) :
    (c.insertValid e h).get? name = if e.name = name then some e else c.get? name :=
  find?_insertIn e name c.entries c.sorted

theorem get?_insertAll (c : Catalog) (es : List Entry) (h : ∀ e ∈ es, e.Valid)
    (hsorted : es.Pairwise fun a b => a.name < b.name) (name : String) :
    (c.insertAll es h).get? name = (es.find? fun e => e.name = name).or (c.get? name) := by
  induction es generalizing c with
  | nil => rfl
  | cons e es ih =>
    obtain ⟨hlt, hsorted⟩ := List.pairwise_cons.1 hsorted
    rw [insertAll, ih _ _ hsorted, get?_insertValid]
    by_cases hname : e.name = name
    · -- no later entry has the name of this one
      have hnone : es.find? (fun a => a.name = name) = none := by
        rw [List.find?_eq_none]
        intro a ha
        have hne : e.name ≠ a.name := String.ne_of_lt (hlt a ha)
        simpa [← hname] using hne.symm
      simp [hname, hnone]
    · simp [hname]

/-- After merging, a name has what the other catalog has for it, or else what it had. -/
theorem get?_merge (c other : Catalog) (name : String) :
    (c.merge other).get? name = (other.get? name).or (c.get? name) :=
  get?_insertAll c other.entries other.valid other.sorted name

end Catalog

end SeededText
