import SeededText.Expansion.Run
import SeededText.Proofs.Catalog.History
import SeededText.Proofs.FirstFault

/-!
# Lists of entries

A catalog is made of a list of entries and can be listed again.  The two ways are not inverse to each
other: a list may have its entries in any order, the catalog has them in the order of their names.
But nothing else is lost.  The listing is a permutation of the list (`entries_perm_of_ofEntries`), so
every order of a list makes the same catalog, and a listing makes the catalog that it came from.

A list that makes none is refused for the first entry at fault.  Three things can be wrong with an
entry, and `Entry.AtFault` says which of them is named: a name that an earlier entry has, then a blank
name, then the first weight that none may have.
-/

namespace SeededText

/-! ## 1. The first entry at fault -/

/-- The fault for which the entry is refused after those before it. -/
inductive Entry.AtFault (before : List Entry) (e : Entry) : CatalogFault → Prop where
  | taken : e.name ∈ before.map Entry.name → AtFault before e (.duplicateVariable e.name)
  | blank : e.name ∉ before.map Entry.name → Text.allBlank e.name.toList = true →
      AtFault before e .emptyName
  /-- a weight that is not valid, after valid ones -/
  | weight {index : Nat} {v : Candidate} : e.name ∉ before.map Entry.name →
      Text.allBlank e.name.toList = false → e.values[index]? = some v →
        validWeight v.weight = false → (∀ w ∈ e.values.take index, validWeight w.weight = true) →
          AtFault before e (.invalidWeight e.name index v.weight)

section

variable {c : Catalog} {e : Entry} {es before : List Entry} {fault : CatalogFault}

/-- The first weight that is not valid, if there is one. -/
theorem find?_invalidWeight_iff {values : List Candidate} {v : Candidate} {index : Nat} :
    values.zipIdx.find? (fun (v, _) => !validWeight v.weight) = some (v, index) ↔
      values[index]? = some v ∧ validWeight v.weight = false ∧
        ∀ w ∈ values.take index, validWeight w.weight = true := by
  rw [List.find?_eq_some_iff_getElem]
  constructor
  · rintro ⟨hinvalid, i, hi, hentry, hfirst⟩
    rw [List.length_zipIdx] at hi
    rw [List.getElem_zipIdx, Nat.zero_add] at hentry
    cases hentry
    refine ⟨List.getElem?_eq_getElem hi, by simpa using hinvalid, fun w hw => ?_⟩
    obtain ⟨j, hj, rfl⟩ := List.mem_take_iff_getElem.1 hw
    simpa using hfirst j (by omega)
  · rintro ⟨hvalue, hinvalid, hfirst⟩
    obtain ⟨hi, rfl⟩ := List.getElem?_eq_some_iff.1 hvalue
    refine ⟨by simpa using hinvalid, index, by simpa using hi, by simp, fun j hj => ?_⟩
    have hmem : values[j] ∈ values.take index :=
      List.mem_take_iff_getElem.2 ⟨j, by omega, rfl⟩
    simpa using hfirst _ hmem

theorem fault?_eq_some_iff (hfree : e.name ∉ before.map Entry.name) :
    e.fault? = some fault ↔ e.AtFault before fault := by
  unfold Entry.fault?
  constructor
  · intro h
    split at h
    · next hblank =>
      cases h
      exact .blank hfree hblank
    · next hblank =>
      rw [Bool.not_eq_true] at hblank
      obtain ⟨⟨v, index⟩, hfind, rfl⟩ := Option.map_eq_some_iff.1 h
      obtain ⟨hvalue, hinvalid, hfirst⟩ := find?_invalidWeight_iff.1 hfind
      exact .weight hfree hblank hvalue hinvalid hfirst
  · intro h
    cases h with
    | taken htaken => exact absurd htaken hfree
    | blank _ hblank => rw [if_pos hblank]
    | weight _ hblank hvalue hinvalid hfirst =>
      rw [if_neg (by simp [hblank]), find?_invalidWeight_iff.2 ⟨hvalue, hinvalid, hfirst⟩]
      rfl

/-- What a list stores under a key is an entry with this name. -/
theorem mem_of_latest?_keyed {key : String} (h : latest? key (es.map Entry.keyed) = some e) :
    e ∈ es ∧ e.name = key := by
  obtain ⟨a, ha, heq⟩ := List.mem_map.1 (mem_of_latest? h)
  obtain ⟨hname, rfl⟩ := Prod.mk.inj heq
  exact ⟨ha, hname⟩

theorem exists_latest?_keyed (he : e ∈ es) : ∃ a, latest? e.name (es.map Entry.keyed) = some a := by
  rw [← Option.isSome_iff_exists, latest?, List.lookup_isSome_iff]
  exact ⟨e.keyed, by simpa using ⟨e, he, rfl⟩, by simp [Entry.keyed]⟩

/-- A name is in the catalog of a list when an entry of the list has it. -/
theorem contains_of_ofEntries (h : Catalog.ofEntries es = .ok c) (name : String) :
    c.contains name = true ↔ name ∈ es.map Entry.name := by
  rw [Catalog.contains, (ofEntries_eq_ok h).2, Option.isSome_iff_exists]
  constructor
  · rintro ⟨e, he⟩
    obtain ⟨hmem, rfl⟩ := mem_of_latest?_keyed he
    exact List.mem_map_of_mem hmem
  · intro hmem
    obtain ⟨e, he, rfl⟩ := List.mem_map.1 hmem
    exact exists_latest?_keyed he

/-- An entry that is added to the catalog of a list fails by what the list has before it. -/
theorem addNew_eq_error_iff (h : Catalog.ofEntries before = .ok c) :
    c.addNew e = .error fault ↔ e.AtFault before fault := by
  have hcontains := contains_of_ofEntries h e.name
  unfold Catalog.addNew
  by_cases htaken : e.name ∈ before.map Entry.name
  · rw [if_pos (hcontains.2 htaken)]
    constructor
    · intro heq
      cases heq
      exact .taken htaken
    · intro hfault
      cases hfault with
      | taken => rfl
      | blank hfree => exact absurd htaken hfree
      | weight hfree => exact absurd htaken hfree
  · rw [if_neg (mt hcontains.1 htaken), insert_eq_error_iff, fault?_eq_some_iff htaken]

/-- A list is refused for its first entry at fault: those before it make a catalog. -/
theorem ofEntries_eq_error_iff :
    Catalog.ofEntries es = .error fault ↔
      ∃ before e after, es = before ++ e :: after ∧ Storable before ∧ e.AtFault before fault := by
  rw [Catalog.ofEntries, foldlM_eq_error_iff]
  constructor
  · rintro ⟨before, e, after, c, rfl, htaken, hfails⟩
    exact ⟨before, e, after, rfl, (ofEntries_eq_ok htaken).1, (addNew_eq_error_iff htaken).1 hfails⟩
  · rintro ⟨before, e, after, rfl, hstorable, hfault⟩
    obtain ⟨c, hc⟩ := exists_ofEntries hstorable
    exact ⟨before, e, after, c, rfl, hc, (addNew_eq_error_iff hc).2 hfault⟩

/-! ## 2. The listing of a catalog -/

/-- What a list stores last under a key is the one entry of this name, if no name stands twice. -/
theorem latest?_keyed_iff (hnodup : (es.map Entry.name).Nodup) :
    latest? e.name (es.map Entry.keyed) = some e ↔ e ∈ es := by
  refine ⟨fun h => (mem_of_latest?_keyed h).1, fun he => ?_⟩
  obtain ⟨a, hlast⟩ := exists_latest?_keyed he
  obtain ⟨ha, hname⟩ := mem_of_latest?_keyed hlast
  rw [hlast, List.inj_on_of_nodup_map hnodup ha he hname]

theorem storable_perm {es' : List Entry} (hperm : es.Perm es') (h : Storable es) : Storable es' :=
  ⟨fun e he => h.1 e (hperm.mem_iff.2 he), (hperm.map Entry.name).nodup h.2⟩

/-- The catalog of a list is listed as the same entries, in the order of their names. -/
theorem entries_perm_of_ofEntries (h : Catalog.ofEntries es = .ok c) : c.entries.Perm es := by
  obtain ⟨⟨-, hnodup⟩, hget⟩ := ofEntries_eq_ok h
  rw [List.perm_ext_iff_of_nodup c.names_nodup.of_map hnodup.of_map]
  intro e
  rw [Catalog.mem_entries_iff, hget, latest?_keyed_iff hnodup]

/-- A list with the entries of a catalog, in any order, makes this catalog. -/
theorem ofEntries_of_perm (hperm : c.entries.Perm es) : Catalog.ofEntries es = .ok c := by
  have hstorable : Storable es := storable_perm hperm ⟨c.valid, c.names_nodup⟩
  obtain ⟨c', hc'⟩ := exists_ofEntries hstorable
  rw [hc', Catalog.ext_perm ((entries_perm_of_ofEntries hc').trans hperm.symm)]

end

/-- A list of entries makes a catalog if and only if every entry is valid and no name stands twice;
otherwise the first entry at fault names the reason.  The order of the list does not matter, neither
to the catalog nor to what is generated from it.  The catalog lists the same entries by their names,
and such a listing makes the catalog again. -/
theorem ofEntries_any_order (es : List Entry) :
    ((∃ c, Catalog.ofEntries es = .ok c) ↔ Storable es) ∧
    (∀ fault, Catalog.ofEntries es = .error fault ↔
      ∃ before e after, es = before ++ e :: after ∧ Storable before ∧ e.AtFault before fault) ∧
    (∀ c, Catalog.ofEntries es = .ok c →
      (∀ es', es.Perm es' → ∃ c', Catalog.ofEntries es' = .ok c' ∧ c' = c ∧
        ∀ template context limits fresh seed count,
          Request.run ⟨template, c', context⟩ limits fresh seed count
            = Request.run ⟨template, c, context⟩ limits fresh seed count) ∧
      c.entries.Perm es ∧ c.entries.Pairwise fun a b => a.name < b.name) ∧
    ∀ c : Catalog, Catalog.ofEntries c.entries = .ok c := by
  refine ⟨⟨?_, exists_ofEntries⟩, fun fault => ofEntries_eq_error_iff, fun c hc => ?_,
    fun c => ofEntries_of_perm (.refl _)⟩
  · rintro ⟨c, hc⟩
    exact (ofEntries_eq_ok hc).1
  · have hlisted := entries_perm_of_ofEntries hc
    refine ⟨fun es' hperm => ?_, hlisted, c.sorted⟩
    exact ⟨c, ofEntries_of_perm (hlisted.trans hperm), rfl, fun _ _ _ _ _ _ => rfl⟩

end SeededText
