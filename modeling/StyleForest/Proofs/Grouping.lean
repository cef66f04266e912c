import Mathlib.Data.List.Forall2
import StyleForest.Proofs.Immutability

/-!
# Tables of nodes without base classes

A run over nodes that have no base class only files entries. It succeeds exactly when every node
is read into an entry and no two entries for one path conflict, and the table then groups the
entries by path: the paths in order of first visit, and under each path its entries in order
(`assembleForest_eq_grouped_iff`).
-/

namespace StyleForest

namespace Visit

/-- The node passes its checks and its declarations are read into the entry. -/
structure Reads (visit : Visit) (entry : Entry) : Prop where
  attributes : visit.attributes.validate = .ok ()
  breakpoint : visit.breakpoint = .ok entry.breakpoint
  block : readBlock visit.path visit.element visit.declarations visit.source = .ok entry.block
  source : entry.source = visit.source

/-- A fragment without a base class takes no copy and may stand anywhere. -/
theorem placement_eq_ok_iff_of_plain {visit : Visit} (hplain : visit.fragment.subclass? = none)
    {placement : Placement} :
    visit.placement = .ok placement ↔
      visit.attributes.validate = .ok () ∧ visit.breakpoint = .ok placement.range ∧
        placement.base = none := by
  rw [placement_eq_ok_iff, subclassBase_eq_ok_iff]
  simp [hplain]

end Visit

namespace StyleTable

/-- A node without a base class comes to be filed in the table as it is. -/
theorem arrival_eq_ok_iff_of_plain {table prepared : StyleTable} {visit : Visit} {entry : Entry}
    (hplain : visit.fragment.subclass? = none) :
    table.arrival visit = .ok (prepared, entry) ↔ prepared = table ∧ visit.Reads entry := by
  rw [arrival_eq_ok_iff]
  constructor
  · rintro ⟨placement, block, hplacement, hprepare, hblock, rfl⟩
    obtain ⟨hvalid, hrange, hbase⟩ := (Visit.placement_eq_ok_iff_of_plain hplain).1 hplacement
    rw [prepare, hbase] at hprepare
    cases hprepare
    exact ⟨rfl, hvalid, hrange, hblock, rfl⟩
  · rintro ⟨rfl, hvalid, hrange, hblock, hsource⟩
    refine ⟨⟨entry.breakpoint, none⟩, entry.block,
      (Visit.placement_eq_ok_iff_of_plain hplain).2 ⟨hvalid, hrange, rfl⟩, rfl, hblock, ?_⟩
    rw [← hsource]

/-- The entries placed under one path, in order. -/
def entriesAt (placed : List (Path × Entry)) (path : Path) : List Entry :=
  (placed.filter fun row => row.1 = path).map Prod.snd

/-- The rows of entries grouped by path. -/
def grouped (placed : List (Path × Entry)) : List (Path × EntryList) :=
  (placed.map Prod.fst).eraseDups.map fun path => (path, ⟨entriesAt placed path, false⟩)

/-- The entries at a path are the ones that were placed under it. -/
theorem mem_entriesAt_iff {placed : List (Path × Entry)} {path : Path} {entry : Entry} :
    entry ∈ entriesAt placed path ↔ (path, entry) ∈ placed := by
  simp [entriesAt]

/-- An entry that is placed last is the last one at its path. -/
theorem entriesAt_append_singleton (placed : List (Path × Entry)) (path other : Path)
    (entry : Entry) :
    entriesAt (placed ++ [(path, entry)]) other =
      entriesAt placed other ++ if path = other then [entry] else [] := by
  by_cases h : path = other
  · simp [entriesAt, h]
  · simp [entriesAt, h]

/-- An entry for a new path comes last, as a list of its own. -/
theorem grouped_append_of_not_mem {placed : List (Path × Entry)} {path : Path}
    (h : path ∉ placed.map Prod.fst) (entry : Entry) :
    grouped (placed ++ [(path, entry)]) = grouped placed ++ [(path, EntryList.single entry)] := by
  have hnone : entriesAt placed path = [] := by
    rw [List.eq_nil_iff_forall_not_mem]
    intro other hmem
    exact h (List.mem_map_of_mem (mem_entriesAt_iff.1 hmem))
  have hpaths : ((placed ++ [(path, entry)]).map Prod.fst).eraseDups =
      (placed.map Prod.fst).eraseDups ++ [path] := by
    rw [List.map_append, List.eraseDups_append]
    simp [List.removeAll, h, List.eraseDups_cons]
  rw [grouped, hpaths, List.map_append, grouped]
  congr 1
  · apply List.map_congr_left
    intro other hother
    have hne : path ≠ other := by
      rintro rfl
      exact h (List.mem_eraseDups.1 hother)
    rw [entriesAt_append_singleton, if_neg hne, List.append_nil]
  · simp [entriesAt_append_singleton, hnone, EntryList.single]

/-- An entry for a path that is there is appended to the list of that path. -/
theorem grouped_append_of_mem {placed : List (Path × Entry)} {path : Path}
    (h : path ∈ placed.map Prod.fst) (entry : Entry) :
    grouped (placed ++ [(path, entry)]) =
      (grouped placed).map fun row => if row.1 = path then (row.1, row.2.push entry) else row := by
  have hpaths : ((placed ++ [(path, entry)]).map Prod.fst).eraseDups =
      (placed.map Prod.fst).eraseDups := by
    rw [List.map_append, List.eraseDups_append]
    simp [List.removeAll, h]
  rw [grouped, hpaths, grouped, List.map_map]
  apply List.map_congr_left
  intro other _
  rw [Function.comp_apply, entriesAt_append_singleton]
  by_cases hother : path = other
  · simp [hother, EntryList.push]
  · simp [hother, Ne.symm hother]

/-- A grouped table finds the entries of a path when some were placed there. -/
theorem get?_of_grouped {table : StyleTable} {placed : List (Path × Entry)}
    (h : table.toList = grouped placed) (path : Path) :
    table.get? path =
      if path ∈ placed.map Prod.fst then some ⟨entriesAt placed path, false⟩ else none := by
  apply Option.ext
  intro list
  rw [get?_eq_some_iff, h, grouped, List.mem_map]
  by_cases hmem : path ∈ placed.map Prod.fst
  · rw [if_pos hmem, Option.some.injEq]
    constructor
    · rintro ⟨other, _, heq⟩
      cases heq
      rfl
    · rintro rfl
      exact ⟨path, List.mem_eraseDups.2 hmem, rfl⟩
  · rw [if_neg hmem]
    refine iff_of_false ?_ nofun
    rintro ⟨other, hother, heq⟩
    cases heq
    exact hmem (List.mem_eraseDups.1 hother)

/-- Filing an entry in a grouped table succeeds exactly when it is compatible with the entries
for its path, and places it after all others. -/
theorem filing_eq_ok_iff_of_grouped {table : StyleTable} {placed : List (Path × Entry)}
    (h : table.toList = grouped placed) {path : Path} {entry : Entry} {filing : Filing} :
    table.filing path entry = .ok filing ↔
      (∀ other, (path, other) ∈ placed → other.Compatible entry) ∧
        filing = if path ∈ placed.map Prod.fst then .appended else .opened := by
  have hget := get?_of_grouped h path
  rw [filing_eq_ok_iff]
  by_cases hmem : path ∈ placed.map Prod.fst
  · rw [if_pos hmem] at hget
    rw [if_pos hmem]
    cases filing with
    | opened => simp [hget]
    | merged => simp [hget]
    | appended =>
      simp [hget, mem_entriesAt_iff, Entry.conflict?_eq_none_iff]
  · rw [if_neg hmem] at hget
    have hnone (other : Entry) : (path, other) ∉ placed := fun hother =>
      hmem (List.mem_map_of_mem hother)
    rw [if_neg hmem]
    cases filing with
    | opened => simp [hget, hnone]
    | merged => simp [hget]
    | appended => simp [hget]

/-- Filing an entry in a grouped table groups it after the entries that were placed before. -/
theorem toList_file_of_grouped {table : StyleTable} {placed : List (Path × Entry)}
    (h : table.toList = grouped placed) {path : Path} {entry : Entry} {filing : Filing}
    (hfiling : table.filing path entry = .ok filing) :
    (table.file path entry filing).toList = grouped (placed ++ [(path, entry)]) := by
  obtain ⟨_, rfl⟩ := (filing_eq_ok_iff_of_grouped h).1 hfiling
  have hget := get?_of_grouped h path
  by_cases hmem : path ∈ placed.map Prod.fst
  · rw [if_pos hmem, file, toList_modify, h, grouped_append_of_mem hmem]
  · rw [if_neg hmem] at hget
    have habsent : table.contains path = false := by
      rw [contains_eq_isSome_get?, hget]
      rfl
    rw [if_neg hmem, file, toList_insert_of_not_contains habsent, h,
      grouped_append_of_not_mem hmem]

/-- Two entries that were placed under one path are compatible. -/
def SamePathCompatible (left right : Path × Entry) : Prop :=
  left.1 = right.1 → left.2.Compatible right.2

/-- Compatibility under one path does not depend on the order of the rows. -/
theorem SamePathCompatible.symm {left right : Path × Entry} (h : SamePathCompatible left right) :
    SamePathCompatible right left :=
  fun hpath => (h hpath.symm).symm

/-- Placing a node without a base class in a grouped table succeeds exactly when the node is
read into an entry that is compatible with those for its path. -/
theorem place_eq_grouped_iff {table : StyleTable} {placed : List (Path × Entry)}
    (h : table.toList = grouped placed) {visit : Visit}
    (hplain : visit.fragment.subclass? = none) {rows : List (Path × EntryList)} :
    (table.place visit).failure = none ∧ (table.place visit).table.toList = rows ↔
      ∃ entry, visit.Reads entry ∧
        (∀ row ∈ placed, SamePathCompatible row (visit.path, entry)) ∧
        rows = grouped (placed ++ [(visit.path, entry)]) := by
  have hsame (entry : Entry) : (∀ row ∈ placed, SamePathCompatible row (visit.path, entry)) ↔
      ∀ other, (visit.path, other) ∈ placed → other.Compatible entry := by
    constructor
    · exact fun hrow other hother => hrow _ hother rfl
    · rintro hother ⟨path, other⟩ hrow rfl
      exact hother other hrow
  constructor
  · rintro ⟨hfailure, rfl⟩
    obtain ⟨prepared, entry, filing, harrival, hfiling, hafter⟩ := exists_filed_of_place hfailure
    obtain ⟨rfl, hreads⟩ := (arrival_eq_ok_iff_of_plain hplain).1 harrival
    refine ⟨entry, hreads, (hsame entry).2 ((filing_eq_ok_iff_of_grouped h).1 hfiling).1, ?_⟩
    rw [hafter, toList_file_of_grouped h hfiling]
  · rintro ⟨entry, hreads, hfree, rfl⟩
    have harrival : table.arrival visit = .ok (table, entry) :=
      (arrival_eq_ok_iff_of_plain hplain).2 ⟨rfl, hreads⟩
    have hfiling := (filing_eq_ok_iff_of_grouped h).2 ⟨(hsame entry).1 hfree, rfl⟩
    rw [place_eq_filed_iff.2 ⟨table, entry, _, harrival, hfiling, rfl⟩]
    exact ⟨rfl, toList_file_of_grouped h hfiling⟩

end StyleTable

namespace Progress

open StyleTable

/-- The row is the entry that the node is read into, under its path. -/
def ReadAs (visit : Visit) (row : Path × Entry) : Prop :=
  row.1 = visit.path ∧ visit.Reads row.2

/-- A run that does not fail has read every node into an entry and filed them all. -/
theorem exists_readAs_of_run {visits : List Visit}
    (hplain : ∀ visit ∈ visits, visit.fragment.subclass? = none) {progress : Progress}
    {placed : List (Path × Entry)} (h : progress.table.toList = grouped placed)
    (hplaced : placed.Pairwise SamePathCompatible) (hend : (progress.run visits).failure = none) :
    ∃ added, visits.Forall₂ ReadAs added ∧ (placed ++ added).Pairwise SamePathCompatible ∧
      (progress.run visits).table.toList = grouped (placed ++ added) := by
  induction visits generalizing progress placed with
  | nil => exact ⟨[], .nil, by rwa [List.append_nil], by rwa [List.append_nil]⟩
  | cons visit rest ih =>
    have hfailure : progress.failure = none := failure_eq_none_of_run hend
    rw [run_cons_of_running hfailure] at hend ⊢
    obtain ⟨entry, hreads, hfree, htable⟩ := (place_eq_grouped_iff h
      (hplain visit List.mem_cons_self)).1 ⟨failure_eq_none_of_run hend, rfl⟩
    have hpairs : (placed ++ [(visit.path, entry)]).Pairwise SamePathCompatible := by
      simpa [List.pairwise_append, hplaced] using hfree
    obtain ⟨added, hadded, hall, hrows⟩ :=
      ih (fun other hmem => hplain other (List.mem_cons_of_mem visit hmem)) htable hpairs hend
    rw [← List.append_cons] at hall hrows
    exact ⟨(visit.path, entry) :: added, .cons ⟨rfl, hreads⟩ hadded, hall, hrows⟩

/-- When every node is read into an entry and no two entries for one path conflict, the run files
them all. -/
theorem run_of_readAs {visits : List Visit}
    (hplain : ∀ visit ∈ visits, visit.fragment.subclass? = none) {progress : Progress}
    {placed added : List (Path × Entry)} (hfailure : progress.failure = none)
    (h : progress.table.toList = grouped placed) (hadded : visits.Forall₂ ReadAs added)
    (hall : (placed ++ added).Pairwise SamePathCompatible) :
    (progress.run visits).failure = none ∧
      (progress.run visits).table.toList = grouped (placed ++ added) := by
  induction hadded generalizing progress placed with
  | nil => exact ⟨hfailure, by rwa [List.append_nil]⟩
  | @cons visit row rest added hrow _ ih =>
    obtain ⟨path, entry⟩ := row
    obtain ⟨rfl, hreads⟩ := hrow
    have hfree : ∀ other ∈ placed, SamePathCompatible other (visit.path, entry) := by
      intro other hother
      exact (List.pairwise_append.1 hall).2.2 other hother _ List.mem_cons_self
    obtain ⟨hplace, htable⟩ := (place_eq_grouped_iff h (hplain visit List.mem_cons_self)).2
      ⟨entry, hreads, hfree, rfl⟩
    rw [List.append_cons] at hall ⊢
    rw [run_cons_of_running hfailure]
    exact ih (fun other hmem => hplain other (List.mem_cons_of_mem visit hmem)) hplace htable hall

end Progress

/-- Assembling a forest without subclasses succeeds with certain rows exactly when every node is
read into an entry, no two entries for one path conflict, and the rows group these entries. -/
theorem assembleForest_eq_grouped_iff {forest : List Node}
    (hplain : ∀ visit ∈ Node.visitsOfAll none none forest, visit.fragment.subclass? = none)
    {rows : List (Path × EntryList)} :
    (assembleForest forest).failure = none ∧ (assembleForest forest).table.toList = rows ↔
      ∃ placed, (Node.visitsOfAll none none forest).Forall₂ Progress.ReadAs placed ∧
        placed.Pairwise StyleTable.SamePathCompatible ∧ rows = StyleTable.grouped placed := by
  have hempty : (Progress.start StyleTable.empty).table.toList = StyleTable.grouped [] := rfl
  constructor
  · rintro ⟨hend, rfl⟩
    exact Progress.exists_readAs_of_run hplain hempty .nil hend
  · rintro ⟨placed, hreads, hall, rfl⟩
    exact Progress.run_of_readAs hplain rfl hempty hreads hall

end StyleForest
