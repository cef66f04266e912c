import StyleForest.Forest.Compiler
import StyleForest.Proofs.Consistency
import StyleForest.Proofs.Copying
import StyleForest.Proofs.Simulation

/-!
# Entries that say nothing

An entry is spare when its block is empty and an entry before it in its list has its range. It
conflicts with nothing, it writes no rule, and no block is ever merged into it, because a merge
takes the first entry for the range. So nothing depends on the spare entries of a table: what is
left without them is all that a walk, the check of the finished table and the stylesheet look at
(`StyleTable.placingLaw_condensed`, `Progress.Related.finish_eq`).
-/

namespace StyleForest

/-- An entry with an empty block is compatible with every other. -/
theorem Entry.compatible_of_isEmpty {entry : Entry} (h : entry.block.isEmpty = true)
    (other : Entry) : entry.Compatible other := by
  have hnone : entry.block.properties = [] := by
    rw [Block.properties, List.isEmpty_iff.1 h, List.map_nil]
  intro _ p hp
  rw [hnone] at hp
  cases hp

namespace EntryList

/-- The entries without those that have an empty block for a range seen before. -/
def condenseAfter (seen : List Breakpoint) : List Entry → List Entry
  | [] => []
  | entry :: rest =>
    if entry.block.isEmpty = true ∧ entry.breakpoint ∈ seen then condenseAfter seen rest
    else entry :: condenseAfter (entry.breakpoint :: seen) rest

/-- The list without its spare entries. -/
def condense (list : EntryList) : EntryList :=
  { list with entries := condenseAfter [] list.entries }

variable {seen : List Breakpoint} {entries : List Entry} {entry : Entry}

/-- An empty entry of a range that was seen before is left out. -/
theorem condenseAfter_cons_of_spare (h : entry.block.isEmpty = true ∧ entry.breakpoint ∈ seen) :
    condenseAfter seen (entry :: entries) = condenseAfter seen entries :=
  if_pos h

/-- Every other entry is kept, and its range has been seen from then on. -/
theorem condenseAfter_cons_of_not_spare
    (h : ¬(entry.block.isEmpty = true ∧ entry.breakpoint ∈ seen)) :
    condenseAfter seen (entry :: entries) =
      entry :: condenseAfter (entry.breakpoint :: seen) entries :=
  if_neg h

/-- A search that passes over empty blocks finds the same without the spare entries. -/
theorem findSome?_condenseAfter {β : Type} {f : Entry → Option β}
    (hf : ∀ entry, entry.block.isEmpty = true → f entry = none) :
    (condenseAfter seen entries).findSome? f = entries.findSome? f := by
  induction entries generalizing seen with
  | nil => rfl
  | cons entry rest ih =>
    by_cases h : entry.block.isEmpty = true ∧ entry.breakpoint ∈ seen
    · rw [condenseAfter_cons_of_spare h, ih, List.findSome?_cons, hf entry h.1]
    · rw [condenseAfter_cons_of_not_spare h, List.findSome?_cons, List.findSome?_cons, ih]

/-- No spare entry has a block that says something. -/
theorem filter_condenseAfter :
    (condenseAfter seen entries).filter (fun entry => !entry.block.isEmpty) =
      entries.filter fun entry => !entry.block.isEmpty := by
  induction entries generalizing seen with
  | nil => rfl
  | cons entry rest ih =>
    by_cases h : entry.block.isEmpty = true ∧ entry.breakpoint ∈ seen
    · rw [condenseAfter_cons_of_spare h, ih, List.filter_cons, h.1]
      rfl
    · rw [condenseAfter_cons_of_not_spare h, List.filter_cons, List.filter_cons, ih]

/-- The first entry for a range is not spare. -/
theorem any_condenseAfter {range : Breakpoint} (hrange : range ∉ seen) :
    (condenseAfter seen entries).any (fun entry => entry.breakpoint = range) =
      entries.any fun entry => entry.breakpoint = range := by
  induction entries generalizing seen with
  | nil => rfl
  | cons entry rest ih =>
    by_cases h : entry.block.isEmpty = true ∧ entry.breakpoint ∈ seen
    · have hne : entry.breakpoint ≠ range := fun heq => hrange (heq ▸ h.2)
      rw [condenseAfter_cons_of_spare h, ih hrange, List.any_cons, decide_eq_false hne,
        Bool.false_or]
    · rw [condenseAfter_cons_of_not_spare h, List.any_cons, List.any_cons]
      by_cases heq : entry.breakpoint = range
      · rw [decide_eq_true heq, Bool.true_or, Bool.true_or]
      · rw [ih (by simp [Ne.symm heq, hrange])]

/-- An appended entry is spare when it is empty and comes after one for its range. -/
theorem condenseAfter_append_singleton :
    condenseAfter seen (entries ++ [entry]) =
      condenseAfter seen entries ++
        if entry.block.isEmpty = true ∧ (entry.breakpoint ∈ seen ∨
          entries.any (fun other => other.breakpoint = entry.breakpoint) = true)
        then [] else [entry] := by
  induction entries generalizing seen with
  | nil => simp [condenseAfter]
  | cons first rest ih =>
    rw [List.cons_append]
    by_cases h : first.block.isEmpty = true ∧ first.breakpoint ∈ seen
    · rw [condenseAfter_cons_of_spare h, condenseAfter_cons_of_spare h, ih]
      have hsame : (entry.breakpoint ∈ seen ∨
          rest.any (fun other => other.breakpoint = entry.breakpoint) = true) ↔
          (entry.breakpoint ∈ seen ∨
            (first :: rest).any (fun other => other.breakpoint = entry.breakpoint) = true) := by
        grind
      simp only [hsame]
    · rw [condenseAfter_cons_of_not_spare h, condenseAfter_cons_of_not_spare h, ih,
        List.cons_append]
      have hsame : (entry.breakpoint ∈ first.breakpoint :: seen ∨
          rest.any (fun other => other.breakpoint = entry.breakpoint) = true) ↔
          (entry.breakpoint ∈ seen ∨
            (first :: rest).any (fun other => other.breakpoint = entry.breakpoint) = true) := by
        grind
      simp only [hsame]

/-- What is condensed has no spare entries. -/
theorem condenseAfter_condenseAfter :
    condenseAfter seen (condenseAfter seen entries) = condenseAfter seen entries := by
  induction entries generalizing seen with
  | nil => rfl
  | cons entry rest ih =>
    by_cases h : entry.block.isEmpty = true ∧ entry.breakpoint ∈ seen
    · rw [condenseAfter_cons_of_spare h, ih]
    · rw [condenseAfter_cons_of_not_spare h, condenseAfter_cons_of_not_spare h, ih]

/-- The first entry for a range is changed alike with and without the spare entries. -/
theorem condenseAfter_modifyRange {range : Breakpoint} (hrange : range ∉ seen)
    {change : Entry → Entry} (hchange : ∀ entry, (change entry).breakpoint = entry.breakpoint) :
    condenseAfter seen (modifyRange range change entries) =
      modifyRange range change (condenseAfter seen entries) := by
  induction entries generalizing seen with
  | nil => rfl
  | cons entry rest ih =>
    by_cases heq : entry.breakpoint = range
    · have hkept : ¬(entry.block.isEmpty = true ∧ entry.breakpoint ∈ seen) :=
        fun h => hrange (heq ▸ h.2)
      have hchanged : ¬((change entry).block.isEmpty = true ∧ (change entry).breakpoint ∈ seen) :=
        fun h => hrange (heq ▸ hchange entry ▸ h.2)
      rw [modifyRange, if_pos heq, condenseAfter_cons_of_not_spare hkept,
        condenseAfter_cons_of_not_spare hchanged, modifyRange, if_pos heq, hchange]
    · rw [modifyRange, if_neg heq]
      by_cases h : entry.block.isEmpty = true ∧ entry.breakpoint ∈ seen
      · rw [condenseAfter_cons_of_spare h, condenseAfter_cons_of_spare h, ih hrange]
      · rw [condenseAfter_cons_of_not_spare h, condenseAfter_cons_of_not_spare h,
          ih (by simp [Ne.symm heq, hrange]), modifyRange, if_neg heq]

/-- A search that passes over empty entries finds the same in the condensed list. -/
theorem findSome?_condense {β : Type} {f : Entry → Option β}
    (hf : ∀ entry, entry.block.isEmpty = true → f entry = none) (list : EntryList) :
    list.condense.entries.findSome? f = list.entries.findSome? f :=
  findSome?_condenseAfter hf

/-- Condensing keeps the ranges of a list. -/
@[simp] theorem hasRange_condense (list : EntryList) (range : Breakpoint) :
    list.condense.hasRange range = list.hasRange range :=
  any_condenseAfter List.not_mem_nil

/-- A pushed entry may be condensed along with the list or after it. -/
theorem condense_push (list : EntryList) (entry : Entry) :
    (list.push entry).condense = (list.condense.push entry).condense := by
  have hany : (condenseAfter [] list.entries).any
      (fun other => other.breakpoint = entry.breakpoint) =
        list.entries.any fun other => other.breakpoint = entry.breakpoint :=
    any_condenseAfter List.not_mem_nil
  simp only [push, condense, condenseAfter_append_singleton, condenseAfter_condenseAfter, hany]

/-- A block may be merged into a range before or after condensing. -/
theorem condense_mergeAt (list : EntryList) (range : Breakpoint) (block : Block) :
    (list.mergeAt range block).condense = list.condense.mergeAt range block :=
  congrArg (fun entries => (⟨entries, list.cloned⟩ : EntryList))
    (condenseAfter_modifyRange List.not_mem_nil fun _ => rfl)

private theorem condense_single (entry : Entry) : (single entry).condense = single entry := by
  simp [single, condense, condenseAfter]

/-- An empty entry for a range that the list has is spare. -/
theorem condense_push_of_spare {list : EntryList} (hempty : entry.block.isEmpty = true)
    (hrange : list.hasRange entry.breakpoint = true) :
    (list.push entry).condense = list.condense := by
  rw [push, condense, condenseAfter_append_singleton,
    if_pos ⟨hempty, Or.inr hrange⟩, List.append_nil]
  rfl

/-- Merging an empty block changes nothing. -/
theorem mergeAt_empty (list : EntryList) (range : Breakpoint) :
    list.mergeAt range Block.empty = list := by
  obtain ⟨entries, cloned⟩ := list
  rw [mergeAt, EntryList.mk.injEq]
  refine ⟨?_, rfl⟩
  show modifyRange range (fun entry => entry) entries = entries
  induction entries with
  | nil => rfl
  | cons entry rest ih =>
    rw [modifyRange, ih]
    split
    · rfl
    · rfl

end EntryList

namespace StyleTable

/-- The rows of the table, each without its spare entries. -/
def condensed (table : StyleTable) : List (Path × EntryList) :=
  table.toList.map fun row => (row.1, row.2.condense)

/-- The tables differ in spare entries alone. -/
def SameCondensed (left right : StyleTable) : Prop :=
  left.condensed = right.condensed

/-- The condensed rows are the rows of the table with their lists condensed. -/
theorem mem_condensed_iff {table : StyleTable} {path : Path} {list : EntryList} :
    (path, list) ∈ table.condensed ↔ (table.get? path).map EntryList.condense = some list := by
  rw [condensed, List.mem_map, Option.map_eq_some_iff]
  constructor
  · rintro ⟨row, hrow, heq⟩
    cases heq
    exact ⟨row.2, get?_eq_some_iff.2 hrow, rfl⟩
  · rintro ⟨old, hold, rfl⟩
    exact ⟨(path, old), get?_eq_some_iff.1 hold, rfl⟩

variable {left right table : StyleTable}

/-- Tables with the same condensed rows hold the same condensed list for every path. -/
theorem SameCondensed.get? (h : SameCondensed left right) (path : Path) :
    (left.get? path).map EntryList.condense = (right.get? path).map EntryList.condense := by
  apply Option.ext
  intro list
  rw [← mem_condensed_iff, ← mem_condensed_iff, h]

/-- Tables with the same condensed rows hold the same paths. -/
theorem SameCondensed.contains (h : SameCondensed left right) (path : Path) :
    left.contains path = right.contains path := by
  rw [contains_eq_isSome_get?, contains_eq_isSome_get?, ← Option.isSome_map, h.get? path,
    Option.isSome_map]

private theorem condensed_insert {path : Path} (h : table.contains path = false) (entry : Entry) :
    (table.insert path (EntryList.single entry)).condensed =
      table.condensed ++ [(path, EntryList.single entry)] := by
  rw [condensed, toList_insert_of_not_contains h, List.map_append, List.map_singleton,
    EntryList.condense_single]
  rfl

/-- A change that the spare entries have no part in can be made without them. -/
theorem condensed_modify (table : StyleTable) (path : Path) {change : EntryList → EntryList}
    (condensedChange : EntryList → EntryList)
    (h : ∀ list, (change list).condense = condensedChange list.condense) :
    (table.modify path change).condensed =
      table.condensed.map fun row =>
        if row.1 = path then (row.1, condensedChange row.2) else row := by
  rw [condensed, toList_modify, condensed, List.map_map, List.map_map]
  refine List.map_congr_left fun row _ => ?_
  by_cases hpath : row.1 = path
  · simp [hpath, h]
  · simp [hpath]

/-- A change of one list that the spare entries alone have a part in makes no difference. -/
theorem sameCondensed_modify {path : Path} {list : EntryList} {change : EntryList → EntryList}
    (found : table.get? path = some list) (h : (change list).condense = list.condense) :
    SameCondensed table (table.modify path change) := by
  rw [SameCondensed, condensed, condensed, toList_modify, List.map_map]
  refine List.map_congr_left fun row hrow => ?_
  by_cases hpath : row.1 = path
  · have hlist : row.2 = list := by
      have hget := get?_eq_some_iff.2 hrow
      rw [hpath, found] at hget
      exact (Option.some.inj hget).symm
    simp [hpath, hlist, h]
  · simp [hpath]

/-- Copies of a base are appended to the condensed rows as copies of these. -/
theorem condensed_cloneBase {cloned : StyleTable} {base target : Fragment}
    {source : Option Location} (h : table.cloneBase base target source = .ok cloned) :
    cloned.condensed = table.condensed ++
      (table.condensed.filter fun row =>
        row.1.startsWith base && !table.contains (row.1.rebase target)).map fun row =>
          (row.1.rebase target, ⟨row.2.entries, true⟩) := by
  rw [condensed, toList_cloneBase h, List.map_append, List.map_map, condensed, List.filter_map,
    List.map_map]
  rfl

/-- Tables that differ in spare entries alone file an entry in the same way, or refuse it for the
same reason. -/
theorem SameCondensed.filing_eq (h : SameCondensed left right) (path : Path) (entry : Entry) :
    left.filing path entry = right.filing path entry := by
  have hget := h.get? path
  unfold StyleTable.filing
  cases hleft : left.get? path with
  | none =>
    rw [hleft, Option.map_none, eq_comm, Option.map_eq_none_iff] at hget
    rw [hget]
  | some list =>
    rw [hleft, Option.map_some, eq_comm, Option.map_eq_some_iff] at hget
    obtain ⟨other, hright, hsame⟩ := hget
    have hcloned : other.cloned = list.cloned := congrArg (fun list => list.cloned) hsame
    have hrange (range : Breakpoint) : other.hasRange range = list.hasRange range := by
      rw [← EntryList.hasRange_condense, hsame, EntryList.hasRange_condense]
    have hfree (existing : Entry) (hempty : existing.block.isEmpty = true) :
        existing.conflict? path entry = none :=
      Entry.conflict?_eq_none_iff.2 (Entry.compatible_of_isEmpty hempty entry)
    have hsearch : other.entries.findSome? (fun existing => existing.conflict? path entry) =
        list.entries.findSome? fun existing => existing.conflict? path entry := by
      rw [← EntryList.findSome?_condense hfree, hsame, EntryList.findSome?_condense hfree]
    simp only [hright, hcloned, hrange, hsearch]

/-- Filing an entry in tables that differ in spare entries alone leaves no other difference. -/
theorem SameCondensed.file (h : SameCondensed left right) {path : Path} {entry : Entry}
    {filing : Filing} (hfiling : left.filing path entry = .ok filing) :
    SameCondensed (left.file path entry filing) (right.file path entry filing) := by
  cases filing with
  | opened =>
    have habsent : left.contains path = false :=
      contains_eq_false_iff.2 (filing_eq_ok_iff.1 hfiling)
    rw [SameCondensed, StyleTable.file, StyleTable.file, condensed_insert habsent,
      condensed_insert (h.contains path ▸ habsent), h]
  | merged =>
    have hmerged (table : StyleTable) := condensed_modify table path
      (fun list => list.mergeAt entry.breakpoint entry.block) fun list =>
        list.condense_mergeAt entry.breakpoint entry.block
    rw [SameCondensed, StyleTable.file, StyleTable.file, hmerged, hmerged, h]
  | appended =>
    have hpushed (table : StyleTable) := condensed_modify table path
      (fun list => (list.push entry).condense) fun list => list.condense_push entry
    rw [SameCondensed, StyleTable.file, StyleTable.file, hpushed, hpushed, h]

/-- Tables that differ in spare entries alone place every visit alike. -/
theorem placingLaw_condensed (visit : Visit) : PlacingLaw SameCondensed visit where
  contains_base h _ := h.contains _
  clone {left right leftCloned rightCloned base} h _ hleft hright := by
    have hcontains : left.contains = right.contains := funext h.contains
    rw [SameCondensed, condensed_cloneBase hleft, condensed_cloneBase hright, hcontains, h]
  filing entry h := h.filing_eq visit.path entry
  file h hfiling := h.file hfiling

/-- The first conflict that a scan meets between the entries of two rows. -/
def rowConflict? (short long : Path × EntryList) : Option StyleError :=
  if short.1.ProperSuffix long.1 then
    long.2.entries.findSome? fun candidate =>
      short.2.entries.findSome? fun control => control.conflict? long.1 candidate
  else
    none

/-- A spare entry conflicts with nothing, neither as the control nor as the candidate. -/
theorem rowConflict?_condense (short long : Path × EntryList) :
    rowConflict? (short.1, short.2.condense) (long.1, long.2.condense) =
      rowConflict? short long := by
  have hcontrol (candidate : Entry) : short.2.condense.entries.findSome?
      (fun control => control.conflict? long.1 candidate) =
        short.2.entries.findSome? fun control => control.conflict? long.1 candidate :=
    EntryList.findSome?_condense (fun control hempty =>
      Entry.conflict?_eq_none_iff.2 (Entry.compatible_of_isEmpty hempty candidate)) short.2
  have hcandidate : ∀ candidate : Entry, candidate.block.isEmpty = true →
      (short.2.entries.findSome? fun control => control.conflict? long.1 candidate) = none := by
    intro candidate hempty
    rw [List.findSome?_eq_none_iff]
    intro control _
    exact Entry.conflict?_eq_none_iff.2 (Entry.compatible_of_isEmpty hempty control).symm
  simp only [rowConflict?, hcontrol, EntryList.findSome?_condense hcandidate]

/-- The scan of a table finds the same without the spare entries. -/
theorem scan?_eq_condensed (table : StyleTable) :
    table.scan? =
      table.condensed.findSome? fun short => table.condensed.findSome? (rowConflict? short) := by
  have hrows : table.scan? =
      table.toList.findSome? fun short => table.toList.findSome? (rowConflict? short) := rfl
  rw [hrows, condensed]
  simp only [List.findSome?_map, Function.comp_def, rowConflict?_condense]

/-- The spare entries write no rules. -/
theorem rules_eq_condensed (table : StyleTable) :
    table.rules = table.condensed.flatMap fun row =>
      (row.2.entries.filter fun entry => !entry.block.isEmpty).map fun entry =>
        { selector := Selector.ofPath row.1, breakpoint := entry.breakpoint,
          block := entry.block } := by
  rw [rules, condensed, List.flatMap_map]
  refine List.flatMap_congr fun row _ => ?_
  show _ = (List.filter _ (EntryList.condenseAfter [] row.2.entries)).map _
  rw [EntryList.filter_condenseAfter]

/-- Tables with the same condensed rows have the same first conflict. -/
theorem SameCondensed.inconsistency?_eq (h : SameCondensed left right) :
    left.inconsistency? = right.inconsistency? := by
  rw [inconsistency?_eq_scan?, inconsistency?_eq_scan?, scan?_eq_condensed, scan?_eq_condensed, h]

/-- Tables with the same condensed rows are written as the same stylesheet. -/
theorem SameCondensed.stylesheet_eq (h : SameCondensed left right) :
    left.stylesheet = right.stylesheet := by
  rw [stylesheet, stylesheet, rules_eq_condensed, rules_eq_condensed, h]

end StyleTable

/-- Works that have ended alike on tables that differ in spare entries alone give the same
stylesheet or the same error. -/
theorem Progress.Related.finish_eq {left right : Progress}
    (h : left.Related StyleTable.SameCondensed right) : left.finish = right.finish := by
  rw [finish, finish, h.failure, h.table.inconsistency?_eq, h.table.stylesheet_eq]

end StyleForest
