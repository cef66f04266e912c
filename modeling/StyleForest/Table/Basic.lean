import Std.Data.TreeMap
import StyleForest.Selector.Path
import StyleForest.Table.Entry

/-!
# Style tables

A style table maps paths to entry lists and keeps the paths in the order in which they were
first filed. The rows stand in an array, and an index gives the position of the row of a path.
The index knows exactly the positions of the rows, so no path has two rows (`nodup_paths`), and
looking a path up is looking it up in the rows (`get?_eq_some_iff`).
-/

namespace StyleForest

/-- The entry lists of paths, in order of first filing. -/
structure StyleTable where
  rows : Array (Path × EntryList)
  index : Std.TreeMap Path Nat
  /-- The index gives the positions of the paths in the rows, and nothing else. -/
  index_iff : ∀ (path : Path) (i : Nat),
    index[path]? = some i ↔ rows[i]?.map Prod.fst = some path

namespace StyleTable

/-- The table without rows. -/
def empty : StyleTable where
  rows := #[]
  index := ∅
  index_iff := by simp

/-- The number of paths. -/
def size (table : StyleTable) : Nat :=
  table.rows.size

/-- The table has no rows. -/
def isEmpty (table : StyleTable) : Bool :=
  table.rows.isEmpty

/-- The rows as a list. -/
def toList (table : StyleTable) : List (Path × EntryList) :=
  table.rows.toList

/-- The paths in order of first filing. -/
def paths (table : StyleTable) : List Path :=
  table.toList.map Prod.fst

/-- The path has a row. -/
def contains (table : StyleTable) (path : Path) : Bool :=
  table.index.contains path

/-- The entry list of a path. -/
def get? (table : StyleTable) (path : Path) : Option EntryList :=
  match table.index[path]? with
  | some i => table.rows[i]?.map Prod.snd
  | none => none

/-- Changes the entry list of a path; a path without a row changes nothing. -/
def modify (table : StyleTable) (path : Path) (change : EntryList → EntryList) : StyleTable :=
  match table.index[path]? with
  | none => table
  | some i =>
    { rows := table.rows.modify i fun (path, list) => (path, change list)
      index := table.index
      index_iff := by
        intro path j
        rw [table.index_iff, Array.getElem?_modify]
        split
        · subst_vars
          simp only [Option.map_map]
          rfl
        · rfl }

/-- Files an entry list under a path. A path that has a row keeps its place; a new path comes
last. -/
def insert (table : StyleTable) (path : Path) (list : EntryList) : StyleTable :=
  match h : table.index[path]? with
  | some _ => table.modify path fun _ => list
  | none =>
    { rows := table.rows.push (path, list)
      index := table.index.insert path table.rows.size
      index_iff := by
        intro other i
        rw [Std.TreeMap.getElem?_insert, Array.getElem?_push]
        have absent (j : Nat) : ¬ (table.rows[j]?.map Prod.fst = some path) := fun hj => by
          simp [(table.index_iff path j).2 hj] at h
        by_cases hp : path = other
        · subst hp
          by_cases hi : i = table.rows.size
          · simp [hi]
          · simp [hi, Ne.symm hi, absent i]
        · by_cases hi : i = table.rows.size
          · subst hi
            simp [hp, table.index_iff]
          · simp [hp, hi, table.index_iff] }

/-- Drops every row. -/
def clear (_table : StyleTable) : StyleTable :=
  empty

@[simp] theorem toList_empty : empty.toList = [] := rfl

/-- The paths of the rows are all different. -/
theorem nodup_paths (table : StyleTable) : table.paths.Nodup := by
  rw [paths, toList, List.Nodup, List.pairwise_iff_getElem]
  intro i j hi hj hij h
  simp only [List.length_map, Array.length_toList] at hi hj
  simp only [List.getElem_map, Array.getElem_toList] at h
  have at_i := (table.index_iff table.rows[i].1 i).2 (by simp [hi])
  have at_j := (table.index_iff table.rows[i].1 j).2 (by simp [hj, h])
  rw [at_i] at at_j
  cases at_j
  omega

/-- Changing the list of a path changes the row of that path and no other. -/
theorem toList_modify (table : StyleTable) (path : Path) (change : EntryList → EntryList) :
    (table.modify path change).toList =
      table.toList.map fun row => if row.1 = path then (row.1, change row.2) else row := by
  apply List.ext_getElem?
  intro i
  unfold modify
  split
  · next h =>
    have absent (row : Path × EntryList) (hr : table.rows[i]? = some row) : row.1 ≠ path := by
      rintro rfl
      have := (table.index_iff row.1 i).2 (by simp [hr])
      simp [this] at h
    cases hr : table.rows[i]? with
    | none => simp [toList, hr]
    | some row => simp [toList, hr, absent row hr]
  · next j hj =>
    have place (row : Path × EntryList) (hr : table.rows[i]? = some row) :
        row.1 = path ↔ j = i := by
      constructor
      · rintro rfl
        have := (table.index_iff row.1 i).2 (by simp [hr])
        simpa [this] using hj.symm
      · rintro rfl
        have := (table.index_iff path j).1 hj
        simpa [hr] using this
    cases hr : table.rows[i]? with
    | none =>
      have := Array.getElem?_eq_none_iff.1 hr
      simp [toList, this]
    | some row =>
      by_cases hij : j = i <;> simp [toList, hr, place row hr, hij]

/-- A new path comes last. -/
theorem toList_insert_of_not_contains {table : StyleTable} {path : Path}
    (h : table.contains path = false) (list : EntryList) :
    (table.insert path list).toList = table.toList ++ [(path, list)] := by
  rw [contains, Std.TreeMap.contains_eq_isSome_getElem?] at h
  unfold insert
  split
  · next hi => simp [hi] at h
  · simp [toList]

/-- Filing under a path that has a row changes the list of the row. -/
theorem insert_of_contains {table : StyleTable} {path : Path}
    (h : table.contains path = true) (list : EntryList) :
    table.insert path list = table.modify path fun _ => list := by
  rw [contains, Std.TreeMap.contains_eq_isSome_getElem?] at h
  unfold insert
  split
  · rfl
  · next hi => simp [hi] at h

/-- A path with a row keeps its place. -/
theorem toList_insert_of_contains {table : StyleTable} {path : Path}
    (h : table.contains path = true) (list : EntryList) :
    (table.insert path list).toList =
      table.toList.map fun row => if row.1 = path then (row.1, list) else row := by
  rw [insert_of_contains h, toList_modify]

/-- Looking a path up finds exactly the row it has. -/
theorem get?_eq_some_iff {table : StyleTable} {path : Path} {list : EntryList} :
    table.get? path = some list ↔ (path, list) ∈ table.toList := by
  simp only [get?, toList, Array.mem_toList_iff, Array.mem_iff_getElem?]
  constructor
  · intro h
    split at h
    · next i hi =>
      have := (table.index_iff path i).1 hi
      exact ⟨i, by grind⟩
    · simp at h
  · rintro ⟨i, hi⟩
    have := (table.index_iff path i).2 (by simp [hi])
    simp [this, hi]

/-- A path is contained exactly when looking it up finds a list. -/
theorem contains_eq_isSome_get? (table : StyleTable) (path : Path) :
    table.contains path = (table.get? path).isSome := by
  rw [contains, Std.TreeMap.contains_eq_isSome_getElem?, get?]
  cases h : table.index[path]? with
  | none => rfl
  | some i =>
    have := (table.index_iff path i).1 h
    grind

/-- A path with a list is in the table. -/
theorem contains_of_get? {table : StyleTable} {path : Path} {list : EntryList}
    (found : table.get? path = some list) : table.contains path = true := by
  rw [contains_eq_isSome_get?, found, Option.isSome_some]

/-- A path is not in the table when it has no list. -/
theorem contains_eq_false_iff {table : StyleTable} {path : Path} :
    table.contains path = false ↔ table.get? path = none := by
  rw [contains_eq_isSome_get?, Option.isSome_eq_false_iff, Option.isNone_iff_eq_none]

/-- A path is contained exactly when it stands in the order of the paths. -/
theorem contains_iff_mem_paths {table : StyleTable} {path : Path} :
    table.contains path = true ↔ path ∈ table.paths := by
  rw [contains_eq_isSome_get?, Option.isSome_iff_exists, paths, List.mem_map]
  simp only [get?_eq_some_iff, Prod.exists, exists_and_right, exists_eq_right]

@[simp] theorem get?_empty (path : Path) : empty.get? path = none := by
  simp [get?, empty]

@[simp] theorem contains_empty (path : Path) : empty.contains path = false :=
  contains_eq_false_iff.2 (get?_empty path)

/-- Changing the list of a path is seen by looking that path up, and by no other look-up. -/
theorem get?_modify (table : StyleTable) (path other : Path) (change : EntryList → EntryList) :
    (table.modify path change).get? other =
      if other = path then (table.get? path).map change else table.get? other := by
  apply Option.ext
  intro list
  rw [get?_eq_some_iff, toList_modify, List.mem_map]
  constructor
  · rintro ⟨row, hrow, heq⟩
    have found : table.get? row.1 = some row.2 := get?_eq_some_iff.2 hrow
    by_cases h : row.1 = path
    · rw [if_pos h] at heq
      cases heq
      rw [if_pos h, ← h, found, Option.map_some]
    · rw [if_neg h] at heq
      cases heq
      rw [if_neg h, found]
  · intro found
    by_cases h : other = path
    · rw [if_pos h] at found
      obtain ⟨old, hold, rfl⟩ := Option.map_eq_some_iff.1 found
      exact ⟨(path, old), get?_eq_some_iff.1 hold, by rw [if_pos rfl, h]⟩
    · rw [if_neg h] at found
      exact ⟨(other, list), get?_eq_some_iff.1 found, if_neg h⟩

/-- Filing a list under a path is seen by looking that path up, and by no other look-up. -/
theorem get?_insert (table : StyleTable) (path other : Path) (list : EntryList) :
    (table.insert path list).get? other = if other = path then some list else table.get? other := by
  cases hc : table.contains path with
  | true =>
    have hsome : (table.get? path).isSome = true := by rw [← contains_eq_isSome_get?, hc]
    obtain ⟨old, hold⟩ := Option.isSome_iff_exists.1 hsome
    rw [insert_of_contains hc, get?_modify, hold, Option.map_some]
  | false =>
    have absent : table.get? path = none := by
      simpa [contains_eq_isSome_get?] using hc
    apply Option.ext
    intro found
    rw [get?_eq_some_iff, toList_insert_of_not_contains hc, List.mem_append, List.mem_singleton,
      ← get?_eq_some_iff]
    by_cases h : other = path
    · simp [h, absent, eq_comm]
    · simp [h]

/-- The index gives the place of a path in the order of the paths. -/
theorem getElem?_index_iff {table : StyleTable} {path : Path} {i : Nat} :
    table.index[path]? = some i ↔ table.paths[i]? = some path := by
  rw [table.index_iff, paths, toList, List.getElem?_map, Array.getElem?_toList]

@[simp] theorem paths_modify (table : StyleTable) (path : Path)
    (change : EntryList → EntryList) : (table.modify path change).paths = table.paths := by
  rw [paths, toList_modify, List.map_map]
  refine List.map_congr_left fun row _ => ?_
  rw [Function.comp_apply]
  split
  · rfl
  · rfl

/-- A path with a row keeps its place in the order, and a new path comes last. -/
theorem paths_insert (table : StyleTable) (path : Path) (list : EntryList) :
    (table.insert path list).paths =
      if path ∈ table.paths then table.paths else table.paths ++ [path] := by
  by_cases hmem : path ∈ table.paths
  · rw [if_pos hmem, insert_of_contains (contains_iff_mem_paths.2 hmem), paths_modify]
  · have habsent : table.contains path = false := by
      rw [← Bool.not_eq_true, contains_iff_mem_paths]
      exact hmem
    rw [if_neg hmem, paths, toList_insert_of_not_contains habsent, List.map_append]
    rfl

end StyleTable

end StyleForest
