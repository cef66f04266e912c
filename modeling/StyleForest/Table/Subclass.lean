import StyleForest.StyleError
import StyleForest.Table.Basic

/-!
# Subclasses

A node with a class `base.sub` at the top of a tree starts from a copy of everything filed
under the fragment of its base class and below it. Subclasses go one level deep, and only at
the top of a tree.
-/

namespace StyleForest

/-- A class name without the last dot and what follows it. -/
def dropLastClass (className : String) : String :=
  let dropped := (className.toList.reverse.dropWhile (· ≠ '.')).drop 1
  String.ofList dropped.reverse

/-- The base of a node's fragment, if the node is a subclass that may stand where it does. -/
def subclassBase (parent : Option Path) (fragment : Fragment) (source : Option Location) :
    Except StyleError (Option Fragment) :=
  match fragment.className, fragment.subclass? with
  | some className, some (_, sub) =>
    match parent with
    | some parent => .error ⟨.nestedSubclass className parent.render, source⟩
    | none =>
      if sub.toList.contains '.' then
        let enclosing : Fragment :=
          { element := fragment.element, className := dropLastClass className }
        .error ⟨.nestedSubclass className enclosing.render, source⟩
      else
        .ok fragment.base?
  | _, _ => .ok none

/-- A node copies nothing if it is no subclass; a subclass copies its base if it stands at the top
of a tree and goes one level deep. -/
theorem subclassBase_eq_ok_iff {parent : Option Path} {fragment : Fragment}
    {source : Option Location} {base? : Option Fragment} :
    subclassBase parent fragment source = .ok base? ↔
      fragment.subclass? = none ∧ base? = none ∨
        parent = none ∧ base? = fragment.base? ∧
          ∃ halves, fragment.subclass? = some halves ∧ '.' ∉ halves.2.toList := by
  unfold subclassBase
  split
  · next className first sub _ hsub =>
    cases parent with
    | some parent => simp [hsub]
    | none =>
      by_cases hdeep : '.' ∈ sub.toList
      · simp [hsub, hdeep]
      · simp [hsub, hdeep, eq_comm]
  · next hnone =>
    have hplain : fragment.subclass? = none := by
      rw [Option.eq_none_iff_forall_not_mem]
      rintro ⟨first, sub⟩ hsub
      obtain ⟨className, hclass, _⟩ := Option.bind_eq_some_iff.1 hsub
      exact hnone className first sub hclass hsub
    simp [hplain, eq_comm]

namespace StyleTable

/-- The rows below a base fragment, moved below another one and marked as copies. -/
def clonesOf (table : StyleTable) (base target : Fragment) : List (Path × EntryList) :=
  (table.toList.filter fun (path, _) => path.startsWith base).map fun (path, list) =>
    (path.rebase target, list.clone)

/-- Adds a row unless its path has one. -/
def addNew (table : StyleTable) (row : Path × EntryList) : StyleTable :=
  if table.contains row.1 then table else table.insert row.1 row.2

/-- Copies everything filed under a base fragment below another one. Paths that are filed
already stay as they are; a base that is not filed is refused. -/
def cloneBase (table : StyleTable) (base target : Fragment) (source : Option Location) :
    Except StyleError StyleTable :=
  let path := Path.root base
  if table.contains path then
    .ok ((table.clonesOf base target).foldl addNew table)
  else
    .error ⟨.unknownBaseClass path.render, source⟩

/-- A row is added for a path that has none, and every other path keeps what it has. -/
theorem get?_addNew (table : StyleTable) (row : Path × EntryList) (path : Path) :
    (table.addNew row).get? path =
      (table.get? path).or (if path = row.1 then some row.2 else none) := by
  unfold addNew
  rw [contains_eq_isSome_get?]
  by_cases h : path = row.1
  · subst h
    cases hg : table.get? row.1 with
    | none => simp [get?_insert]
    | some list => simp [hg]
  · by_cases hc : (table.get? row.1).isSome = true
    · simp [hc, h]
    · simp [hc, get?_insert, h]

/-- Of several rows for one path the first one is added. -/
theorem get?_foldl_addNew (table : StyleTable) (rows : List (Path × EntryList)) (path : Path) :
    (rows.foldl addNew table).get? path = (table.get? path).or (rows.lookup path) := by
  induction rows generalizing table with
  | nil => simp
  | cons row rest ih =>
    obtain ⟨other, list⟩ := row
    rw [List.foldl_cons, ih, get?_addNew, Option.or_assoc, List.lookup_cons]
    congr 1
    by_cases h : path = other
    · simp [h]
    · have hne : (path == other) = false := by simpa using h
      simp [h, hne]

/-- Copying a base succeeds when the base is filed, and adds the copies. -/
theorem cloneBase_eq_ok_iff {table cloned : StyleTable} {base target : Fragment}
    {source : Option Location} :
    table.cloneBase base target source = .ok cloned ↔
      table.contains (Path.root base) = true ∧
        cloned = (table.clonesOf base target).foldl addNew table := by
  unfold cloneBase
  by_cases h : table.contains (Path.root base) = true
  · simp [h, eq_comm]
  · simp [h]

/-- The copies are the lists filed below the base, each under its moved path. -/
theorem mem_clonesOf_iff {table : StyleTable} {base target : Fragment} {row : Path × EntryList} :
    row ∈ table.clonesOf base target ↔
      ∃ path list, table.get? path = some list ∧ path.startsWith base = true ∧
        row = (path.rebase target, list.clone) := by
  simp only [clonesOf, List.mem_map, List.mem_filter, get?_eq_some_iff]
  constructor
  · rintro ⟨⟨path, list⟩, ⟨hmem, hstart⟩, rfl⟩
    exact ⟨path, list, hmem, hstart, rfl⟩
  · rintro ⟨path, list, hmem, hstart, rfl⟩
    exact ⟨(path, list), ⟨hmem, hstart⟩, rfl⟩

/-- After copying, a path has what it had before, or a copy if it had nothing. -/
theorem get?_cloneBase_cases {table cloned : StyleTable} {base target : Fragment}
    {source : Option Location} (h : table.cloneBase base target source = .ok cloned)
    {path : Path} {list : EntryList} (found : cloned.get? path = some list) :
    table.get? path = some list ∨ table.get? path = none ∧
      ∃ origin old, table.get? origin = some old ∧ origin.startsWith base = true ∧
        path = origin.rebase target ∧ list = old.clone := by
  obtain ⟨_, rfl⟩ := cloneBase_eq_ok_iff.1 h
  rw [get?_foldl_addNew, Option.or_eq_some_iff] at found
  refine found.imp_right fun ⟨absent, hlookup⟩ => ⟨absent, ?_⟩
  obtain ⟨before, after, heq, _⟩ := List.lookup_eq_some_iff.1 hlookup
  have hmem : (path, list) ∈ table.clonesOf base target := by simp [heq]
  obtain ⟨origin, old, hold, hstart, hrow⟩ := mem_clonesOf_iff.1 hmem
  cases hrow
  exact ⟨origin, old, hold, hstart, rfl, rfl⟩

/-- Copying leaves the lists that are filed already. -/
theorem get?_cloneBase_of_get? {table cloned : StyleTable} {base target : Fragment}
    {source : Option Location} (h : table.cloneBase base target source = .ok cloned)
    {path : Path} {list : EntryList} (found : table.get? path = some list) :
    cloned.get? path = some list := by
  obtain ⟨_, rfl⟩ := cloneBase_eq_ok_iff.1 h
  rw [get?_foldl_addNew, found, Option.some_or]

end StyleTable

end StyleForest
