import Mathlib.Data.List.DropRight
import Mathlib.Data.List.Nodup
import StyleForest.Table.Basic

/-!
# Insertion order

A table is updated by inserting a list under a path, by changing the list of a path that is looked
up, and by dropping all rows. The rows and the index are two records of the same paths, and an
update keeps them in step. What a table holds in the end is told from the updates alone
(`TableUpdate.table_of_updates`): its paths are those that were inserted since the last clear, in
the order in which they were inserted first, the index knows exactly their places in this order,
and the list of a path is the one that was inserted last, as the later changes of the path have
made it.
-/

namespace StyleForest

/-- A further element is kept if it is none of those before it. -/
theorem eraseDups_concat {α : Type} [DecidableEq α] (list : List α) (a : α) :
    (list ++ [a]).eraseDups =
      if a ∈ list.eraseDups then list.eraseDups else list.eraseDups ++ [a] := by
  rw [List.eraseDups_append, List.removeAll, List.filter_singleton]
  by_cases hmem : a ∈ list
  · simp [hmem, List.mem_eraseDups]
  · simp [hmem, List.mem_eraseDups, List.eraseDups_cons]

/-- An update of a table. -/
inductive TableUpdate where
  | insert (path : Path) (list : EntryList)
  /-- Looks the path up and changes the list that is found, if there is one. -/
  | modify (path : Path) (change : EntryList → EntryList)
  | clear

namespace TableUpdate

/-- The table after an update. -/
def apply (table : StyleTable) : TableUpdate → StyleTable
  | insert path list => table.insert path list
  | modify path change => table.modify path change
  | clear => table.clear

/-- The table after all updates in order. -/
def applyAll (table : StyleTable) (updates : List TableUpdate) : StyleTable :=
  updates.foldl apply table

/-- The path under which an update inserts a list. -/
def inserted? : TableUpdate → Option Path
  | insert path _ => some path
  | modify _ _ => none
  | clear => none

/-- The update drops all rows. -/
def isClear : TableUpdate → Bool
  | clear => true
  | _ => false

/-- The updates after the last clear. -/
def sinceClear (updates : List TableUpdate) : List TableUpdate :=
  updates.rtakeWhile fun update => !update.isClear

/-- The paths that were inserted since the last clear, in the order in which they were inserted
first. -/
def insertionOrder (updates : List TableUpdate) : List Path :=
  ((sinceClear updates).filterMap inserted?).eraseDups

/-- What an update makes of the list of a path, if it neither drops it nor takes another list in its
place. -/
def revise (path : Path) (list : EntryList) : TableUpdate → EntryList
  | modify changed change => if changed = path then change list else list
  | insert _ _ => list
  | clear => list

/-- The updates leave a list under a path: one was inserted there, no later update dropped it or
took another list in its place, and the later changes of the path have made this list of it. -/
def Leave (updates : List TableUpdate) (path : Path) (list : EntryList) : Prop :=
  ∃ before inserted after, updates = before ++ insert path inserted :: after ∧
    (∀ update ∈ after, update ≠ clear ∧ update.inserted? ≠ some path) ∧
    after.foldl (revise path) inserted = list

variable {table : StyleTable} {updates : List TableUpdate} {update : TableUpdate} {path : Path}
  {list : EntryList}

/-- One more update leaves a list under a path if it inserts it there, or if it lets a list stand
and makes this one of it. -/
theorem leave_concat_iff :
    Leave (updates ++ [update]) path list ↔
      update = insert path list ∨
        (update ≠ clear ∧ update.inserted? ≠ some path) ∧
          ∃ earlier, Leave updates path earlier ∧ update.revise path earlier = list := by
  constructor
  · rintro ⟨before, inserted, after, hupdates, hafter, rfl⟩
    -- The last update inserted the list, or it is one of those after the insertion.
    rcases List.eq_nil_or_concat after with rfl | ⟨between, last, rfl⟩
    · obtain ⟨-, hlast⟩ := List.append_inj' hupdates rfl
      exact Or.inl (List.singleton_inj.1 hlast)
    · rw [List.concat_eq_append] at hupdates hafter ⊢
      rw [← List.cons_append, ← List.append_assoc] at hupdates
      obtain ⟨rfl, hlast⟩ := List.append_inj' hupdates rfl
      obtain rfl := List.singleton_inj.1 hlast
      rw [List.forall_mem_append, List.forall_mem_singleton] at hafter
      exact Or.inr ⟨hafter.2, _, ⟨before, inserted, between, rfl, hafter.1, rfl⟩,
        (List.foldl_concat ..).symm⟩
  · rintro (rfl | ⟨hspared, _, ⟨before, inserted, after, rfl, hafter, rfl⟩, rfl⟩)
    · exact ⟨updates, list, [], rfl, List.forall_mem_nil _, rfl⟩
    · refine ⟨before, inserted, after ++ [update], ?_, ?_, List.foldl_concat ..⟩
      · rw [List.append_assoc, List.cons_append]
      · rw [List.forall_mem_append, List.forall_mem_singleton]
        exact ⟨hafter, hspared⟩

/-- A clear drops the updates before it, and any other update comes after them. -/
theorem sinceClear_concat (updates : List TableUpdate) (update : TableUpdate) :
    sinceClear (updates ++ [update]) =
      if update.isClear then [] else sinceClear updates ++ [update] := by
  rw [sinceClear, List.rtakeWhile_concat]
  cases update.isClear with
  | false => rfl
  | true => rfl

/-- A path that is inserted comes last, unless it has been inserted since the last clear. -/
theorem insertionOrder_concat_insert (updates : List TableUpdate) (path : Path) (list : EntryList) :
    insertionOrder (updates ++ [insert path list]) =
      if path ∈ insertionOrder updates then insertionOrder updates
      else insertionOrder updates ++ [path] := by
  have hinserted : (sinceClear (updates ++ [insert path list])).filterMap inserted? =
      (sinceClear updates).filterMap inserted? ++ [path] := by
    simp [sinceClear_concat, isClear, inserted?]
  rw [insertionOrder, hinserted, eraseDups_concat, ← insertionOrder]

/-- A change of a list does not add a path. -/
theorem insertionOrder_concat_modify (updates : List TableUpdate) (path : Path)
    (change : EntryList → EntryList) :
    insertionOrder (updates ++ [modify path change]) = insertionOrder updates := by
  have hinserted : (sinceClear (updates ++ [modify path change])).filterMap inserted? =
      (sinceClear updates).filterMap inserted? := by
    simp [sinceClear_concat, isClear, List.filterMap_cons, inserted?]
  rw [insertionOrder, hinserted, insertionOrder]

/-- After a clear nothing is left. -/
theorem insertionOrder_concat_clear (updates : List TableUpdate) :
    insertionOrder (updates ++ [clear]) = [] := by
  rw [insertionOrder, sinceClear_concat, isClear, if_pos rfl]
  rfl

/-- The last update acts on the table that the others give. -/
theorem applyAll_concat (table : StyleTable) (updates : List TableUpdate) (update : TableUpdate) :
    applyAll table (updates ++ [update]) = update.apply (applyAll table updates) :=
  List.foldl_concat ..

/-- What one update makes of the look-up of a path. -/
theorem get?_apply_eq_some_iff :
    (update.apply table).get? path = some list ↔
      update = insert path list ∨
        (update ≠ clear ∧ update.inserted? ≠ some path) ∧
          ∃ earlier, table.get? path = some earlier ∧ update.revise path earlier = list := by
  cases update with
  | insert added new =>
    rw [apply, StyleTable.get?_insert]
    by_cases hpath : path = added
    · simp [hpath, inserted?]
    · simp [hpath, Ne.symm hpath, inserted?, revise]
  | modify changed change =>
    rw [apply, StyleTable.get?_modify]
    by_cases hpath : path = changed
    · simp [hpath, inserted?, revise]
    · simp [hpath, Ne.symm hpath, inserted?, revise]
  | clear => simp [apply, StyleTable.clear]

/-- Looking a path up finds the list that the updates leave under it. -/
theorem get?_applyAll_eq_some_iff (updates : List TableUpdate) (path : Path) (list : EntryList) :
    (applyAll .empty updates).get? path = some list ↔ Leave updates path list := by
  induction updates using List.reverseRecOn generalizing list with
  | nil => simp [applyAll, Leave]
  | append_singleton updates update ih =>
    rw [applyAll_concat, get?_apply_eq_some_iff, leave_concat_iff]
    simp only [ih]

/-- The paths stand in the order in which they were inserted first. -/
theorem paths_applyAll (updates : List TableUpdate) :
    (applyAll .empty updates).paths = insertionOrder updates := by
  induction updates using List.reverseRecOn with
  | nil => rfl
  | append_singleton updates update ih =>
    rw [applyAll_concat]
    cases update with
    | insert path list => rw [apply, StyleTable.paths_insert, ih, insertionOrder_concat_insert]
    | modify path change => rw [apply, StyleTable.paths_modify, ih, insertionOrder_concat_modify]
    | clear =>
      rw [insertionOrder_concat_clear]
      rfl

/-- Only a clear takes paths away or moves them. -/
theorem paths_prefix_apply (table : StyleTable) (h : update ≠ clear) :
    table.paths <+: (update.apply table).paths := by
  cases update with
  | insert path list =>
    rw [apply, StyleTable.paths_insert]
    split
    case isTrue => exact List.prefix_refl _
    case isFalse => exact List.prefix_append ..
  | modify path change =>
    have hsame : ((modify path change).apply table).paths = table.paths :=
      table.paths_modify path change
    exact ⟨[], (List.append_nil _).trans hsame.symm⟩
  | clear => exact absurd rfl h

/-- Without a clear the paths of a table stay in front. -/
theorem paths_prefix_applyAll (table : StyleTable) (h : clear ∉ updates) :
    table.paths <+: (applyAll table updates).paths := by
  induction updates generalizing table with
  | nil => exact List.prefix_refl _
  | cons update rest ih =>
    rw [List.mem_cons, not_or] at h
    exact (paths_prefix_apply table (Ne.symm h.1)).trans (ih (update.apply table) h.2)

/-- After any updates of the empty table, the rows stand in the order in which their paths were
inserted first since the last clear, and no path stands twice. The index gives every path its place
in this order and holds nothing else. Looking a path up finds the list that was inserted last under
it, as the later changes of the path have made it, and nothing for a path that was not inserted
since the last clear; the rows hold the lists that look-up finds. Until the next clear every path
keeps its place, whatever is inserted again or changed. -/
theorem table_of_updates (updates : List TableUpdate) :
    let table := applyAll .empty updates
    table.paths = insertionOrder updates ∧ table.paths.Nodup ∧
    (∀ (path : Path) (i : Nat),
      table.index[path]? = some i ↔ (insertionOrder updates)[i]? = some path) ∧
    (∀ path list, table.get? path = some list ↔ Leave updates path list) ∧
    (∀ path, table.get? path = none ↔ path ∉ insertionOrder updates) ∧
    (∀ path list, (path, list) ∈ table.toList ↔ table.get? path = some list) ∧
    ∀ later, clear ∉ later → ∀ (path : Path) (i : Nat), table.index[path]? = some i →
      (applyAll table later).index[path]? = some i := by
  intro table
  have hpaths : table.paths = insertionOrder updates := paths_applyAll updates
  refine ⟨hpaths, table.nodup_paths, fun path i => ?_, get?_applyAll_eq_some_iff updates,
    fun path => ?_, fun path list => StyleTable.get?_eq_some_iff.symm,
    fun later hlater path i hplace => ?_⟩
  · rw [← hpaths, StyleTable.getElem?_index_iff]
  · rw [← hpaths, ← StyleTable.contains_eq_false_iff, ← Bool.not_eq_true,
      StyleTable.contains_iff_mem_paths]
  · obtain ⟨added, hadded⟩ := paths_prefix_applyAll table hlater
    rw [StyleTable.getElem?_index_iff] at hplace ⊢
    obtain ⟨hbound, _⟩ := List.getElem?_eq_some_iff.1 hplace
    rw [← hadded, List.getElem?_append_left hbound, hplace]

/-- After a clear, a bold text and a link are styled, and the list of the link is marked as a copy.
Styling the bold text again gives it another color in its old place. -/
theorem bold_text_keeps_its_place :
    let bold : Path := .root { element := "b" }
    let link : Path := .root { element := "a" }
    let color := fun value : String => EntryList.single
      { block := ⟨[{ property := "color", value }]⟩, breakpoint := .unbounded, source := none }
    let updates := [insert link (color "red"), clear, insert bold (color "red"),
      insert link (color "blue"), modify link EntryList.clone]
    let later := [insert bold (color "green")]
    let table := applyAll .empty updates
    clear ∉ later ∧ table.paths = [bold, link] ∧ table.get? link = some (color "blue").clone ∧
      table.index[bold]? = some 0 ∧ (applyAll table later).index[bold]? = some 0 ∧
      (applyAll table later).get? bold = some (color "green") := by
  intro bold link color updates later table
  have hlater : clear ∉ later := by simp [later]
  have hplace : table.index[bold]? = some 0 := by decide +kernel
  obtain ⟨hpaths, _, _, _, _, _, hkept⟩ := table_of_updates updates
  exact ⟨hlater, hpaths.trans (by decide +kernel), by decide +kernel, hplace,
    hkept later hlater bold 0 hplace, by decide +kernel⟩

end TableUpdate

end StyleForest
