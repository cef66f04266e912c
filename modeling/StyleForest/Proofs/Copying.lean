import Mathlib.Data.List.Nodup
import StyleForest.Proofs.Descent
import StyleForest.Proofs.Lineage

/-!
# Copies of a base

Copying a base adds one row for every path below it, unless the moved path has a row already
(`StyleTable.toList_cloneBase`). The moved paths are all different, so no copy is lost to another
one. A subclass that is assembled merges into the copies at the paths of its own nodes only; all
other copies keep the entries of the base, and the rows of the base are not touched.
-/

namespace StyleForest

/-- Paths with the same first fragment are moved to different paths. -/
theorem Path.eq_of_rebase_eq {left right : Path} {base target : Fragment}
    (hleft : left.startsWith base = true) (hright : right.startsWith base = true)
    (h : left.rebase target = right.rebase target) : left = right := by
  obtain ⟨leftFragments⟩ := left
  obtain ⟨rightFragments⟩ := right
  rw [startsWith, beq_iff_eq] at hleft hright
  obtain ⟨leftBelow, rfl⟩ := List.head?_eq_some_iff.1 hleft
  obtain ⟨rightBelow, rfl⟩ := List.head?_eq_some_iff.1 hright
  rw [rebase, rebase, Path.mk.injEq, List.cons.injEq] at h
  rw [h.2]

/-- A path that is moved below a fragment starts with it. -/
theorem Path.startsWith_rebase {path : Path} {base : Fragment} (h : path.startsWith base = true)
    (target : Fragment) : (path.rebase target).startsWith target = true := by
  obtain ⟨fragments⟩ := path
  rw [startsWith, beq_iff_eq] at h
  obtain ⟨below, rfl⟩ := List.head?_eq_some_iff.1 h
  rw [startsWith, rebase, List.head?_cons, beq_self_eq_true]

/-- A path that is moved away and back again is the path it was. -/
theorem Path.rebase_rebase {path : Path} {base : Fragment} (h : path.startsWith base = true)
    (target : Fragment) : (path.rebase target).rebase base = path := by
  obtain ⟨fragments⟩ := path
  rw [startsWith, beq_iff_eq] at h
  obtain ⟨below, rfl⟩ := List.head?_eq_some_iff.1 h
  rfl

namespace StyleTable

/-- A copied row has a path of its own. -/
theorem nodup_paths_clonesOf (table : StyleTable) (base target : Fragment) :
    ((table.clonesOf base target).map Prod.fst).Nodup := by
  have hpaths : ((table.toList.filter fun row => row.1.startsWith base).map Prod.fst).Nodup :=
    table.nodup_paths.sublist (List.filter_sublist.map Prod.fst)
  have hmoved : (table.clonesOf base target).map Prod.fst =
      ((table.toList.filter fun row => row.1.startsWith base).map Prod.fst).map
        fun path => path.rebase target := by
    rw [clonesOf, List.map_map, List.map_map]
    rfl
  rw [hmoved]
  refine hpaths.map_on fun left hleft right hright heq => ?_
  obtain ⟨row, hrow, rfl⟩ := List.mem_map.1 hleft
  obtain ⟨other, hother, rfl⟩ := List.mem_map.1 hright
  exact Path.eq_of_rebase_eq (List.mem_filter.1 hrow).2 (List.mem_filter.1 hother).2 heq

/-- A new row is added under its path alone. -/
theorem contains_addNew (table : StyleTable) (row : Path × EntryList) (path : Path) :
    (table.addNew row).contains path = (table.contains path || path == row.1) := by
  rw [contains_eq_isSome_get?, get?_addNew, contains_eq_isSome_get?, Option.isSome_or]
  by_cases h : path = row.1
  · simp [h]
  · simp [h]

/-- Rows with paths of their own are added in order, but for those whose path has a row. -/
theorem toList_foldl_addNew (table : StyleTable) {rows : List (Path × EntryList)}
    (h : (rows.map Prod.fst).Nodup) :
    (rows.foldl addNew table).toList =
      table.toList ++ rows.filter fun row => !table.contains row.1 := by
  induction rows generalizing table with
  | nil => simp
  | cons row rest ih =>
    rw [List.map_cons, List.nodup_cons] at h
    have hrest : rest.filter (fun other => !(table.addNew row).contains other.1) =
        rest.filter fun other => !table.contains other.1 := by
      refine List.filter_congr fun other hmem => ?_
      have hne : other.1 ≠ row.1 := fun heq => h.1 (heq ▸ List.mem_map_of_mem hmem)
      rw [contains_addNew, beq_eq_false_iff_ne.2 hne, Bool.or_false]
    rw [List.foldl_cons, ih _ h.2, hrest, addNew]
    cases hrow : table.contains row.1 with
    | true => simp [hrow]
    | false => simp [hrow, toList_insert_of_not_contains hrow]

/-- Copying adds, in the order of the originals, the copies whose paths have no row. -/
theorem toList_cloneBase {table cloned : StyleTable} {base target : Fragment}
    {source : Option Location} (h : table.cloneBase base target source = .ok cloned) :
    cloned.toList = table.toList ++
      (table.toList.filter fun row =>
        row.1.startsWith base && !table.contains (row.1.rebase target)).map fun row =>
          (row.1.rebase target, ⟨row.2.entries, true⟩) := by
  obtain ⟨_, rfl⟩ := cloneBase_eq_ok_iff.1 h
  rw [toList_foldl_addNew _ (nodup_paths_clonesOf ..), clonesOf, List.filter_map,
    List.filter_filter]
  congr 2
  exact List.filter_congr fun row _ => Bool.and_comm ..

/-- In rows with paths of their own a path is looked up exactly where it stands. -/
theorem lookup_eq_some_iff_mem {rows : List (Path × EntryList)} (h : (rows.map Prod.fst).Nodup)
    {path : Path} {list : EntryList} : rows.lookup path = some list ↔ (path, list) ∈ rows := by
  rw [List.lookup_eq_some_iff]
  constructor
  · rintro ⟨before, after, rfl, _⟩
    exact List.mem_append_right before List.mem_cons_self
  · intro hmem
    obtain ⟨before, after, rfl⟩ := List.append_of_mem hmem
    refine ⟨before, after, rfl, fun row hrow => ?_⟩
    rw [List.map_append, List.nodup_append] at h
    have hne := h.2.2 row.1 (List.mem_map_of_mem hrow) path List.mem_cons_self
    exact bne_iff_ne.2 hne.symm

/-- The copy for a path below the target is made from the list of the path it is moved from. -/
theorem lookup_clonesOf (table : StyleTable) (base target : Fragment) (path : Path) :
    (table.clonesOf base target).lookup path =
      if path.startsWith target = true then (table.get? (path.rebase base)).map EntryList.clone
      else none := by
  apply Option.ext
  intro list
  have hlookup : (table.clonesOf base target).lookup path = some list ↔
      (path, list) ∈ table.clonesOf base target :=
    lookup_eq_some_iff_mem (nodup_paths_clonesOf table base target)
  rw [hlookup, mem_clonesOf_iff]
  constructor
  · rintro ⟨origin, old, hold, hstart, heq⟩
    rw [Prod.mk.injEq] at heq
    obtain ⟨rfl, rfl⟩ := heq
    rw [if_pos (Path.startsWith_rebase hstart target), Path.rebase_rebase hstart target, hold]
    rfl
  · intro hcopy
    by_cases hstart : path.startsWith target = true
    · rw [if_pos hstart, Option.map_eq_some_iff] at hcopy
      obtain ⟨old, hold, rfl⟩ := hcopy
      exact ⟨path.rebase base, old, hold, Path.startsWith_rebase hstart base,
        by rw [Path.rebase_rebase hstart base]⟩
    · rw [if_neg hstart] at hcopy
      cases hcopy

/-- After copying, a path below the target that had no list has the copy made for it, and every
other path has what it had before. -/
theorem get?_cloneBase {table cloned : StyleTable} {base target : Fragment}
    {source : Option Location} (h : table.cloneBase base target source = .ok cloned)
    (path : Path) :
    cloned.get? path = (table.get? path).or
      (if path.startsWith target = true then (table.get? (path.rebase base)).map EntryList.clone
        else none) := by
  obtain ⟨_, rfl⟩ := cloneBase_eq_ok_iff.1 h
  rw [get?_foldl_addNew, lookup_clonesOf]

/-- The second table is the first one with the rows below a base copied below a target. -/
structure Copied (table : StyleTable) (base target : Fragment) (cloned : StyleTable) : Prop where
  /-- All rows stay, and behind them stand the copies for paths without a row, in the order of
  their originals. -/
  rows : cloned.toList = table.toList ++
    (table.toList.filter fun row =>
      row.1.startsWith base && !table.contains (row.1.rebase target)).map fun row =>
        (row.1.rebase target, ⟨row.2.entries, true⟩)
  /-- Every moved path has a list: the one it had, or else a copy of the original. -/
  moved : ∀ path list, table.get? path = some list → path.startsWith base = true →
    cloned.get? (path.rebase target) =
      some ((table.get? (path.rebase target)).getD ⟨list.entries, true⟩)

/-- Copying a base that is filed succeeds with exactly the copies added. -/
theorem copied_of_contains {table : StyleTable} {base target : Fragment}
    (source : Option Location) (h : table.contains (Path.root base) = true) :
    ∃ cloned, table.cloneBase base target source = .ok cloned ∧
      table.Copied base target cloned := by
  obtain ⟨cloned, hclone⟩ : ∃ cloned, table.cloneBase base target source = .ok cloned :=
    ⟨_, cloneBase_eq_ok_iff.2 ⟨h, rfl⟩⟩
  have hrows := toList_cloneBase hclone
  refine ⟨cloned, hclone, hrows, fun path list hpath hstart => ?_⟩
  cases hold : table.get? (path.rebase target) with
  | some old => exact get?_cloneBase_of_get? hclone hold
  | none =>
    have habsent : table.contains (path.rebase target) = false := contains_eq_false_iff.2 hold
    rw [get?_eq_some_iff, hrows, List.mem_append, List.mem_map]
    refine Or.inr ⟨(path, list), List.mem_filter.2 ⟨get?_eq_some_iff.1 hpath, ?_⟩, rfl⟩
    rw [hstart, habsent]
    rfl

end StyleTable

/-- The path of a node starts with the fragment of the root it is below. -/
theorem startsWith_of_mem_lineages {node : Node} {lineage : Lineage}
    (h : lineage ∈ lineages [node]) : lineage.path.startsWith node.fragment = true := by
  obtain ⟨root, hroot, hhead, _⟩ := mem_lineages_iff.1 h
  rw [List.mem_singleton.1 hroot] at hhead
  rw [Path.startsWith, Lineage.path, List.head?_map, hhead, Option.map_some, beq_self_eq_true]

/-- A walk of a tree files under the paths of the nodes of the tree. -/
theorem exists_lineage_of_mem_visits {node : Node} {visit : Visit}
    (h : visit ∈ node.visits none none) :
    ∃ lineage ∈ lineages [node], lineage.path = visit.path := by
  rw [visits_eq_map_lineages, List.mem_map] at h
  obtain ⟨lineage, hmem, rfl⟩ := h
  exact ⟨lineage, hmem, lineage.path_visit.symm⟩

namespace StyleTable

/-- Assembling a subclass copies its base, and then changes the lists of its own nodes alone. -/
theorem get?_assemble_of_base? {table : StyleTable} {node : Node} {base : Fragment}
    (hbase : node.fragment.base? = some base)
    (hend : (table.assemble node none none).failure = none) :
    ∃ cloned, table.cloneBase base node.fragment node.attributes.source = .ok cloned ∧
      ∀ path, (∀ lineage ∈ lineages [node], lineage.path ≠ path) →
        (table.assemble node none none).table.get? path = cloned.get? path := by
  obtain ⟨visit, below, hvisits, hfragment, hsource, hparents⟩ := visits_eq_cons node
  have hpaths (other : Visit) (hmem : other ∈ visit :: below) :
      ∃ lineage ∈ lineages [node], lineage.path = other.path :=
    exists_lineage_of_mem_visits (hvisits ▸ hmem)
  rw [assemble, hvisits, Progress.run_cons_of_running rfl] at hend ⊢
  have hplaced : (table.place visit).failure = none := Progress.failure_eq_none_of_run hend
  obtain ⟨cloned, entry, filing, hclone, hfiled⟩ :=
    exists_cloned_of_place (hfragment ▸ hbase) hplaced
  refine ⟨cloned, by rw [← hfragment, ← hsource, hclone], fun path hother => ?_⟩
  have hne (other : Visit) (hmem : other ∈ visit :: below) : path ≠ other.path := by
    obtain ⟨lineage, hlineage, hpath⟩ := hpaths other hmem
    exact hpath ▸ (hother lineage hlineage).symm
  refine Progress.table_run_induction (P := fun table => table.get? path = cloned.get? path)
    (fun table other hmem hkept => ?_) ?_
  · rw [get?_place_of_parent (hparents other hmem) (hne other (List.mem_cons_of_mem _ hmem)),
      hkept]
  · show (table.place visit).table.get? path = cloned.get? path
    rw [hfiled, get?_file, if_neg (hne visit List.mem_cons_self)]

/-- Copying a base that is filed adds exactly the copies. So when a tree with a subclass at its
root is assembled, the lists of the base stay as they are, and what is below the base is found
below the subclass with the same entries, unless its moved path has a list of its own or is the
path of a node of the tree. -/
theorem base_copied_below_subclass (table : StyleTable) :
    (∀ (base target : Fragment) (source : Option Location),
      table.contains (Path.root base) = true →
      ∃ cloned, table.cloneBase base target source = .ok cloned ∧
        table.Copied base target cloned) ∧
    ∀ (node : Node) (base : Fragment), node.fragment.base? = some base →
      (table.assemble node none none).failure = none →
      ∀ (path : Path) (list : EntryList), table.get? path = some list →
        path.startsWith base = true →
        (table.assemble node none none).table.get? path = some list ∧
        (table.get? (path.rebase node.fragment) = none →
          (∀ lineage ∈ lineages [node], lineage.path ≠ path.rebase node.fragment) →
          (table.assemble node none none).table.get? (path.rebase node.fragment) =
            some ⟨list.entries, true⟩) := by
  refine ⟨fun base target source => copied_of_contains source, ?_⟩
  intro node base hbase hend path list hpath hstart
  obtain ⟨cloned, hclone, hkept⟩ := get?_assemble_of_base? hbase hend
  constructor
  · rw [hkept path, get?_cloneBase_of_get? hclone hpath]
    -- The paths of the tree start with the subclass, which is not its own base.
    rintro lineage hmem rfl
    have hroot := startsWith_of_mem_lineages hmem
    rw [Path.startsWith, beq_iff_eq] at hstart hroot
    rw [hstart, Option.some.injEq] at hroot
    exact Fragment.ne_of_base? hbase hroot
  · intro habsent hother
    obtain ⟨_, hsame, hcopied⟩ := copied_of_contains node.attributes.source
      (cloneBase_eq_ok_iff.1 hclone).1
    cases hclone.symm.trans hsame
    rw [hkept _ hother, hcopied.moved path list hpath hstart, habsent, Option.getD_none]

/-- A large button changes the span inside a button and leaves the emphasis as it is. -/
theorem emphasis_copied_below_large_button :
    let base : Fragment := { element := "button", className := "primary" }
    let em : Fragment := { element := "em" }
    let table := (StyleTable.empty.assemble
      (Node.mk "button" { className := "primary" } "color: red;"
        [Node.mk "span" {} "margin: 0;" [], Node.mk "em" {} "padding: 2px;" []]) none none).table
    let node := Node.mk "button" { className := "primary.large" } "padding: 8px;"
      [Node.mk "span" {} "margin: 4px;" []]
    table.contains (Path.root base) = true ∧
      (∃ cloned, table.cloneBase base node.fragment none = .ok cloned ∧
        table.Copied base node.fragment cloned) ∧
      (table.assemble node none none).failure = none ∧
      ∃ list, table.get? ⟨[base, em]⟩ = some list ∧
        (table.assemble node none none).table.get? ⟨[base, em]⟩ = some list ∧
        (table.assemble node none none).table.get? ⟨[node.fragment, em]⟩ =
          some ⟨list.entries, true⟩ := by
  intro base em table node
  have hbase : table.contains (Path.root base) = true := by decide +kernel
  have hend : (table.assemble node none none).failure = none := by decide +kernel
  have hfiled : (table.get? ⟨[base, em]⟩).isSome = true := by decide +kernel
  obtain ⟨list, hlist⟩ := Option.isSome_iff_exists.1 hfiled
  obtain ⟨hcopied, hassembled⟩ := base_copied_below_subclass table
  obtain ⟨hkept, hmoved⟩ := hassembled node base rfl hend ⟨[base, em]⟩ list hlist (by decide)
  exact ⟨hbase, hcopied base node.fragment none hbase, hend, list, hlist, hkept,
    hmoved (by decide +kernel) (by decide +kernel)⟩

end StyleTable

end StyleForest
