import Mathlib.Data.List.Permutation
import SeededText.Catalog.Basic
import SeededText.Proofs.FirstFault

/-!
# What a catalog holds after a history

A catalog comes about by operations one after another: an entry is inserted, another catalog is
merged, or the whole is replaced by what a list of entries makes up.  Each is a `Change`, which fails
or not and leaves a catalog either way, and `History.catalog` is what the changes leave.  Nothing in
their form takes back what was stored before a failure: that a failure leaves the catalog as it was
holds because an entry is checked before it is stored and a list is made up apart (`on_insert`,
`on_replace`).

`History.stores` knows no catalog.  It is a log: an operation that succeeds writes the pairs of a key
and an entry that it stores behind those that were stored before, and a replacement forgets them
first.  Whether an operation succeeds is said without doing it, and a merge looks at nothing: it
writes the other log as it is.

`get?_catalog` says that the catalog holds under a key what the log has last under it.  A catalog is
known by what it holds under its keys (`Catalog.ext_get?`), so the laws of merging come down to those
of choosing between two entries.
-/

namespace SeededText

/-! ## 1. A catalog is known by what it holds -/

namespace Catalog

variable {c c' other : Catalog} {e : Entry} {name : String}

theorem names_sorted (c : Catalog) : c.names.Pairwise (· < ·) :=
  List.pairwise_map.2 c.sorted

theorem names_nodup (c : Catalog) : c.names.Nodup :=
  c.names_sorted.imp String.ne_of_lt

theorem name_of_get? (h : c.get? name = some e) : e.name = name := by
  simpa using List.find?_some h

/-- An entry stands in the catalog exactly when it is what the catalog has for its name. -/
theorem mem_entries_iff : e ∈ c.entries ↔ c.get? e.name = some e := by
  refine ⟨fun hmem => ?_, List.mem_of_find?_eq_some⟩
  cases hget : c.get? e.name with
  | none =>
    have hnone := List.find?_eq_none.1 hget e hmem
    simp at hnone
  | some a =>
    have hmem' : a ∈ c.entries := List.mem_of_find?_eq_some hget
    rw [List.inj_on_of_nodup_map c.names_nodup hmem' hmem (name_of_get? hget)]

theorem mem_names_iff : name ∈ c.names ↔ c.contains name = true := by
  rw [contains, Option.isSome_iff_exists]
  constructor
  · intro hmem
    obtain ⟨e, he, rfl⟩ := List.mem_map.1 hmem
    exact ⟨e, mem_entries_iff.1 he⟩
  · rintro ⟨e, hget⟩
    exact List.mem_map.2 ⟨e, List.mem_of_find?_eq_some hget, name_of_get? hget⟩

/-- Two catalogs with the same entries are the same, since both have them in the order of names. -/
theorem ext_perm (hperm : c.entries.Perm c'.entries) : c = c' := by
  have hentries : c.entries = c'.entries :=
    hperm.eq_of_pairwise (fun _ _ _ _ hlt hgt => absurd hgt (String.lt_asymm hlt)) c.sorted c'.sorted
  cases c
  cases c'
  cases hentries
  rfl

/-- Two catalogs that have the same for every name are the same. -/
theorem ext_get? (h : ∀ name, c.get? name = c'.get? name) : c = c' := by
  apply ext_perm
  rw [List.perm_ext_iff_of_nodup c.names_nodup.of_map c'.names_nodup.of_map]
  intro e
  rw [mem_entries_iff, mem_entries_iff, h]

/-! ### Merging -/

theorem merge_assoc (first second third : Catalog) :
    (first.merge second).merge third = first.merge (second.merge third) := by
  apply ext_get?
  intro name
  rw [get?_merge, get?_merge, get?_merge, get?_merge, Option.or_assoc]

theorem merge_self (c : Catalog) : c.merge c = c := by
  apply ext_get?
  intro name
  rw [get?_merge, Option.or_self]

theorem empty_merge (c : Catalog) : empty.merge c = c := by
  apply ext_get?
  intro name
  rw [get?_merge]
  exact Option.or_none

theorem merge_empty (c : Catalog) : c.merge empty = c :=
  rfl

end Catalog

/-! ## 2. Changes -/

/-- The catalog after an operation with this outcome. -/
def Catalog.after (c : Catalog) : Except CatalogFault Catalog → Catalog
  | .ok c' => c'
  | .error _ => c

/-- An operation that is done to a catalog: it fails or not, and leaves a catalog either way. -/
abbrev Change :=
  ExceptT CatalogFault (StateM Catalog) Unit

namespace Change

/-- The answer, and the catalog that is left. -/
def on (change : Change) (c : Catalog) : Except CatalogFault Unit × Catalog :=
  (change.run.run c).run

/-- An entry is checked, and then it is stored. -/
def insert (e : Entry) : Change := do
  if let some fault := e.fault? then
    throw fault
  if h : e.Valid then
    modify fun c => c.insertValid e h

/-- A name that is taken is refused before the entry is looked at. -/
def addNew (e : Entry) : Change := do
  if (← get).contains e.name then throw (.duplicateVariable e.name) else insert e

/-- Entries are added to an empty catalog, and what they make up comes in the place of the one there
was, unless one of them fails. -/
def replace (es : List Entry) : Change :=
  match on (es.forM addNew) .empty with
  | (.ok _, built) => set built
  | (.error fault, _) => throw fault

def merge (other : Catalog) : Change :=
  modify fun c => c.merge other

end Change

section

variable {c : Catalog} {e : Entry} {es : List Entry} {fault : CatalogFault}

theorem insert_eq_error_iff : c.insert e = .error fault ↔ e.fault? = some fault := by
  unfold Catalog.insert
  split
  · next h => simp [h]
  · next h => simp [h]

theorem insert_of_valid (c : Catalog) (hvalid : e.Valid) :
    c.insert e = .ok (c.insertValid e hvalid) := by
  unfold Catalog.insert
  split
  · next h =>
    rw [e.fault?_eq_none_iff.2 hvalid] at h
    cases h
  · rfl

theorem Change.on_bind (change : Change) (next : Unit → Change) (c : Catalog) :
    Change.on (change >>= next) c =
      match change.on c with
      | (.ok _, c') => (next ()).on c'
      | (.error fault, c') => (.error fault, c') := by
  unfold Change.on
  rw [ExceptT.run_bind, StateT.run_bind]
  show (_ : Id _) = _
  generalize change.run.run c = result
  obtain ⟨answer, left⟩ := result
  cases answer <;> rfl

/-- Inserting leaves the catalog with the entry in it, or as it was. -/
theorem Change.on_insert (e : Entry) (c : Catalog) :
    (Change.insert e).on c = ((c.insert e).map fun _ => (), c.after (c.insert e)) := by
  unfold Change.insert
  cases hfault : e.fault? with
  | some fault =>
    rw [insert_eq_error_iff.2 hfault]
    rfl
  | none =>
    have hvalid := e.fault?_eq_none_iff.1 hfault
    rw [insert_of_valid c hvalid, dif_pos hvalid]
    rfl

theorem Change.on_addNew (e : Entry) (c : Catalog) :
    (Change.addNew e).on c = ((c.addNew e).map fun _ => (), c.after (c.addNew e)) := by
  have hon : (Change.addNew e).on c = Change.on (if c.contains e.name
      then throw (.duplicateVariable e.name) else Change.insert e) c := rfl
  rw [hon, Catalog.addNew]
  split
  · rfl
  · exact Change.on_insert e c

/-- Adding entries answers what `Catalog.addNew` does, but a failure leaves those before it. -/
theorem Change.on_forM_addNew (es : List Entry) (c : Catalog) :
    (∃ c', es.foldlM Catalog.addNew c = .ok c' ∧ Change.on (es.forM Change.addNew) c = (.ok (), c')) ∨
    ∃ fault left, es.foldlM Catalog.addNew c = .error fault ∧
      Change.on (es.forM Change.addNew) c = (.error fault, left) := by
  induction es generalizing c with
  | nil => exact .inl ⟨c, rfl, rfl⟩
  | cons e es ih =>
    rw [List.forM_eq_forM, List.forM_cons, Change.on_bind, Change.on_addNew, List.foldlM_cons]
    cases hadd : c.addNew e with
    | ok c' => exact ih c'
    | error fault => exact .inr ⟨fault, c, rfl, rfl⟩

/-- Replacing leaves what the list makes up, or if it makes up nothing, the catalog as it was. -/
theorem Change.on_replace (es : List Entry) (c : Catalog) :
    (Change.replace es).on c
      = ((Catalog.ofEntries es).map fun _ => (), c.after (Catalog.ofEntries es)) := by
  unfold Change.replace Catalog.ofEntries
  rcases Change.on_forM_addNew es .empty with ⟨c', hmade, hon⟩ | ⟨fault, left, hmade, hon⟩
  · rw [hmade, hon]
    rfl
  · rw [hmade, hon]
    rfl

end

/-! ## 3. Histories -/

/-- What has been done to a catalog, from the empty one on; the outermost operation is the latest.  A
catalog that is merged has a history of its own. -/
inductive History where
  | start
  /-- the catalog is replaced by what a list of entries, perhaps read from its stored form, makes up -/
  | replace (before : History) (es : List Entry)
  | insert (before : History) (e : Entry)
  | merge (before other : History)

/-- The entries make up a catalog: each is valid, and no name stands twice. -/
def Storable (es : List Entry) : Prop :=
  (∀ e ∈ es, e.Valid) ∧ (es.map Entry.name).Nodup

instance (es : List Entry) : Decidable (Storable es) :=
  inferInstanceAs (Decidable (_ ∧ _))

/-- An entry with the key that it is stored under. -/
def Entry.keyed (e : Entry) : String × Entry :=
  (e.name, e)

/-- The entry that a log, its latest pair last, has last under a key. -/
def latest? (key : String) (log : List (String × Entry)) : Option Entry :=
  log.reverse.lookup key

namespace History

/-- The history up to its latest operation. -/
def before : History → History
  | .start => .start
  | .replace before _ | .insert before _ | .merge before _ => before

/-- What the latest operation answers, and the catalog that it leaves. -/
def finish : History → Except CatalogFault Unit × Catalog
  | .start => (.ok (), .empty)
  | .replace before es => (Change.replace es).on before.finish.2
  | .insert before e => (Change.insert e).on before.finish.2
  | .merge before other => (Change.merge other.finish.2).on before.finish.2

def answer (h : History) : Except CatalogFault Unit :=
  h.finish.1

/-- The catalog at the end of the history. -/
def catalog (h : History) : Catalog :=
  h.finish.2

/-- What the latest operation should come to: a catalog, or why there is none. -/
def outcome : History → Except CatalogFault Catalog
  | .start => .ok .empty
  | .replace _ es => Catalog.ofEntries es
  | .insert before e => before.catalog.insert e
  | .merge before other => .ok (before.catalog.merge other.catalog)

/-- There is nothing about the latest operation that a catalog refuses. -/
def Admissible : History → Prop
  | .start | .merge _ _ => True
  | .replace _ es => Storable es
  | .insert _ e => e.Valid

/-- The log of what was stored since the catalog was last replaced. -/
def stores : History → List (String × Entry)
  | .start => []
  | .replace before es => if Storable es then es.map Entry.keyed else before.stores
  | .insert before e => if e.Valid then before.stores ++ [e.keyed] else before.stores
  | .merge before other => before.stores ++ other.stores

end History

/-! ## 4. Single operations -/

section

variable {c c' : Catalog} {e : Entry} {es : List Entry} {key : String}
  {log more : List (String × Entry)}

theorem latest?_append (key : String) (log more : List (String × Entry)) :
    latest? key (log ++ more) = (latest? key more).or (latest? key log) := by
  rw [latest?, List.reverse_append, List.lookup_append]
  rfl

theorem latest?_singleton (key : String) (e : Entry) :
    latest? key [e.keyed] = if e.name = key then some e else none := by
  rw [latest?, List.reverse_singleton, Entry.keyed, List.lookup_cons]
  by_cases hname : e.name = key
  · simp [hname]
  · have hne : (key == e.name) = false := by simpa using Ne.symm hname
    simp [hname, hne]

theorem mem_of_latest? (h : latest? key log = some e) : (key, e) ∈ log := by
  obtain ⟨before, after, hlog, -⟩ := List.lookup_eq_some_iff.1 h
  rw [← List.mem_reverse, hlog]
  simp

theorem get?_insertValid_latest (c : Catalog) (hvalid : e.Valid) (key : String) :
    (c.insertValid e hvalid).get? key = (latest? key [e.keyed]).or (c.get? key) := by
  rw [Catalog.get?_insertValid, latest?_singleton]
  split <;> rfl

/-- An entry that is inserted is valid, and its name has it from then on. -/
theorem insert_eq_ok (h : c.insert e = .ok c') :
    e.Valid ∧ ∀ key, c'.get? key = (latest? key [e.keyed]).or (c.get? key) := by
  obtain ⟨hvalid, rfl⟩ := Catalog.exists_valid_of_insert_eq_ok h
  exact ⟨hvalid, get?_insertValid_latest c hvalid⟩

/-- Every valid entry is inserted. -/
theorem exists_insert (c : Catalog) (hvalid : e.Valid) : ∃ c', c.insert e = .ok c' :=
  ⟨_, insert_of_valid c hvalid⟩

theorem get?_eq_none_of_addNew (h : c.addNew e = .ok c') : c.get? e.name = none := by
  unfold Catalog.addNew at h
  split at h
  · cases h
  · next hcontains => simpa [Catalog.contains] using hcontains

theorem addNew_of_get?_eq_none (h : c.get? e.name = none) : c.addNew e = c.insert e := by
  simp [Catalog.addNew, Catalog.contains, h]

/-- Entries that were added one after another make up a catalog, and none of their names was taken. -/
theorem foldlM_addNew_eq_ok (h : es.foldlM Catalog.addNew c = .ok c') :
    (Storable es ∧ ∀ a ∈ es, c.get? a.name = none) ∧
      ∀ key, c'.get? key = (latest? key (es.map Entry.keyed)).or (c.get? key) := by
  induction es generalizing c with
  | nil =>
    cases h
    exact ⟨⟨⟨by simp, List.nodup_nil⟩, by simp⟩, fun _ => rfl⟩
  | cons e es ih =>
    obtain ⟨c₁, hadd, h⟩ := foldlM_cons_eq_ok_iff.1 h
    have hnone := get?_eq_none_of_addNew hadd
    rw [addNew_of_get?_eq_none hnone] at hadd
    obtain ⟨hvalid, hget⟩ := insert_eq_ok hadd
    obtain ⟨⟨⟨hvalids, hnodup⟩, hfresh⟩, hlater⟩ := ih h
    -- what is free once the first entry is stored was free before and is not its name
    have hfree : ∀ a ∈ es, c.get? a.name = none ∧ e.name ≠ a.name := by
      intro a ha
      have hor := hfresh a ha
      rw [hget, Option.or_eq_none_iff, latest?_singleton] at hor
      exact ⟨hor.2, by simpa using hor.1⟩
    refine ⟨⟨⟨List.forall_mem_cons.2 ⟨hvalid, hvalids⟩, ?_⟩, ?_⟩, fun key => ?_⟩
    · refine List.nodup_cons.2 ⟨fun hmem => ?_, hnodup⟩
      obtain ⟨a, ha, hname⟩ := List.mem_map.1 hmem
      exact (hfree a ha).2 hname.symm
    · exact List.forall_mem_cons.2 ⟨hnone, fun a ha => (hfree a ha).1⟩
    · rw [hlater, hget, ← Option.or_assoc, ← latest?_append]
      rfl

theorem exists_foldlM_addNew (hstorable : Storable es) (hfresh : ∀ a ∈ es, c.get? a.name = none) :
    ∃ c', es.foldlM Catalog.addNew c = .ok c' := by
  induction es generalizing c with
  | nil => exact ⟨c, rfl⟩
  | cons e es ih =>
    obtain ⟨hvalids, hnodup⟩ := hstorable
    obtain ⟨hvalid, hvalids⟩ := List.forall_mem_cons.1 hvalids
    obtain ⟨hnone, hfresh⟩ := List.forall_mem_cons.1 hfresh
    obtain ⟨hname, hnodup⟩ := List.nodup_cons.1 hnodup
    obtain ⟨c₁, hinsert⟩ := exists_insert c hvalid
    have hstill : ∀ a ∈ es, c₁.get? a.name = none := by
      intro a ha
      have hne : e.name ≠ a.name := fun heq => hname (heq ▸ List.mem_map_of_mem ha)
      rw [(insert_eq_ok hinsert).2, latest?_singleton, if_neg hne, hfresh a ha]
      rfl
    obtain ⟨c', hlater⟩ := ih ⟨hvalids, hnodup⟩ hstill
    refine ⟨c', ?_⟩
    rw [List.foldlM_cons, addNew_of_get?_eq_none hnone, hinsert]
    exact hlater

/-- A list that makes up a catalog stores its entries and nothing else. -/
theorem ofEntries_eq_ok (h : Catalog.ofEntries es = .ok c) :
    Storable es ∧ ∀ key, c.get? key = latest? key (es.map Entry.keyed) := by
  obtain ⟨⟨hstorable, -⟩, hget⟩ := foldlM_addNew_eq_ok h
  refine ⟨hstorable, fun key => ?_⟩
  rw [hget]
  exact Option.or_none

theorem exists_ofEntries (h : Storable es) : ∃ c, Catalog.ofEntries es = .ok c :=
  exists_foldlM_addNew h fun _ _ => rfl

end

/-! ## 5. Whole histories -/

namespace History

/-- The latest operation answers and leaves what it should. -/
theorem finish_eq (h : History) :
    h.finish = (h.outcome.map fun _ => (), h.before.catalog.after h.outcome) := by
  cases h with
  | start => rfl
  | replace before es => exact Change.on_replace es before.catalog
  | insert before e => exact Change.on_insert e before.catalog
  | merge => rfl

theorem answer_eq (h : History) : h.answer = h.outcome.map fun _ => () :=
  congrArg Prod.fst h.finish_eq

/-- The catalog is what the latest operation came to, or what it was. -/
theorem catalog_eq_after (h : History) : h.catalog = h.before.catalog.after h.outcome :=
  congrArg Prod.snd h.finish_eq

/-- An operation succeeds exactly when there is nothing that a catalog refuses. -/
theorem exists_outcome_iff (h : History) : (∃ c, h.outcome = .ok c) ↔ h.Admissible := by
  cases h with
  | start => exact ⟨fun _ => trivial, fun _ => ⟨_, rfl⟩⟩
  | replace _ es =>
    refine ⟨?_, exists_ofEntries⟩
    rintro ⟨c, hc⟩
    exact (ofEntries_eq_ok hc).1
  | insert before e =>
    refine ⟨?_, exists_insert before.catalog⟩
    rintro ⟨c, hc⟩
    exact (insert_eq_ok hc).1
  | merge => exact ⟨fun _ => trivial, fun _ => ⟨_, rfl⟩⟩

/-- Whatever was stored is valid, and its key is its name. -/
theorem valid_of_mem_stores (h : History) {key : String} {e : Entry} (hmem : (key, e) ∈ h.stores) :
    e.name = key ∧ e.Valid := by
  have hkeyed : ∀ a : Entry, a.Valid → (key, e) = a.keyed → e.name = key ∧ e.Valid := by
    rintro a hvalid heq
    cases heq
    exact ⟨rfl, hvalid⟩
  induction h with
  | start => cases hmem
  | replace before es ih =>
    rw [stores] at hmem
    split at hmem
    · next hstorable =>
      obtain ⟨a, ha, heq⟩ := List.mem_map.1 hmem
      exact hkeyed a (hstorable.1 a ha) heq.symm
    · exact ih hmem
  | insert before a ih =>
    rw [stores] at hmem
    split at hmem
    · next hvalid =>
      rcases List.mem_append.1 hmem with hmem | hmem
      · exact ih hmem
      · exact hkeyed a hvalid (List.mem_singleton.1 hmem)
    · exact ih hmem
  | merge before other ih ihOther =>
    rcases List.mem_append.1 hmem with hmem | hmem
    · exact ih hmem
    · exact ihOther hmem

/-- The catalog holds under a key what was stored under it last. -/
theorem get?_catalog (h : History) (key : String) : h.catalog.get? key = latest? key h.stores := by
  induction h with
  | start => rfl
  | replace before es ih =>
    rw [catalog_eq_after, outcome, History.before, stores]
    by_cases hstorable : Storable es
    · obtain ⟨c, hc⟩ := exists_ofEntries hstorable
      rw [hc, if_pos hstorable]
      exact (ofEntries_eq_ok hc).2 key
    · rw [if_neg hstorable, ← ih]
      cases hc : Catalog.ofEntries es with
      | ok c => exact absurd (ofEntries_eq_ok hc).1 hstorable
      | error fault => rfl
  | insert before e ih =>
    rw [catalog_eq_after, outcome, History.before, stores]
    by_cases hvalid : e.Valid
    · obtain ⟨c, hc⟩ := exists_insert before.catalog hvalid
      rw [hc, if_pos hvalid, latest?_append, ← ih]
      exact (insert_eq_ok hc).2 key
    · rw [if_neg hvalid, ← ih]
      cases hc : before.catalog.insert e with
      | ok c => exact absurd (insert_eq_ok hc).1 hvalid
      | error fault => rfl
  | merge before other ih ihOther =>
    rw [catalog_eq_after, outcome, Catalog.after, Catalog.get?_merge, ih, ihOther, stores,
      latest?_append]

end History

/-- A catalog is a map that its history's stores make up, the last of them winning.  Every entry
stands under its own name and is valid, however it got there; an operation fails exactly when there
is something a catalog refuses, and then what it leaves is the catalog there was; and merging is a
monoid in which every catalog is idempotent. -/
theorem catalog_of_history (h : History) :
    (∀ key e, h.catalog.get? key = some e → e.name = key ∧ e.Valid) ∧
    (h.answer = h.outcome.map fun _ => ()) ∧
    (∀ fault, h.outcome = .error fault → h.catalog = h.before.catalog) ∧
    (∀ c, h.outcome = .ok c → h.catalog = c) ∧
    ((∃ c, h.outcome = .ok c) ↔ h.Admissible) ∧
    (∀ key, h.catalog.get? key = latest? key h.stores) ∧
    h.catalog.names.Pairwise (· < ·) ∧
    (∀ name, name ∈ h.catalog.names ↔ h.catalog.contains name = true) ∧
    h.catalog.size = h.catalog.names.length ∧
    (∀ first second third : Catalog,
      (first.merge second).merge third = first.merge (second.merge third)) ∧
    (∀ c : Catalog, c.merge c = c ∧ Catalog.empty.merge c = c ∧ c.merge .empty = c) := by
  refine ⟨?_, h.answer_eq, ?_, ?_, h.exists_outcome_iff, h.get?_catalog, h.catalog.names_sorted,
    fun _ => Catalog.mem_names_iff, (List.length_map Entry.name).symm, Catalog.merge_assoc,
    fun c => ?_⟩
  · intro key e hget
    rw [h.get?_catalog] at hget
    exact h.valid_of_mem_stores (mem_of_latest? hget)
  · intro fault hfault
    rw [h.catalog_eq_after, hfault]
    rfl
  · intro c hc
    rw [h.catalog_eq_after, hc]
    rfl
  · exact ⟨c.merge_self, c.empty_merge, c.merge_empty⟩

end SeededText
