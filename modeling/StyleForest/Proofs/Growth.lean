import StyleForest.Proofs.Acceptance
import StyleForest.Proofs.Footprint

/-!
# Growth of a table

What is filed is never taken back. Every row keeps its place, every entry keeps its place in its
list, its range and its source, and the properties it has stay in front of those it gains
(`StyleTable.GrowsTo`). Only a merge changes an entry, and only lists that were copied take merges,
so a list of another kind only has entries appended. A conflict between entries therefore outlasts
everything that is assembled later, and a forest that is refused cannot be repaired by appending
trees (`Compiler.isOk_compile_of_append`).
-/

namespace StyleForest

/-- The entry has gained properties behind those it had. -/
structure Entry.GrowsTo (old new : Entry) : Prop where
  breakpoint : new.breakpoint = old.breakpoint
  source : new.source = old.source
  properties : old.block.properties <+: new.block.properties

namespace Entry.GrowsTo

/-- An entry grows to itself. -/
theorem refl (entry : Entry) : entry.GrowsTo entry :=
  ⟨rfl, rfl, List.prefix_refl _⟩

/-- What an entry grows to may grow further. -/
theorem trans {old mid new : Entry} (h : old.GrowsTo mid) (h' : mid.GrowsTo new) :
    old.GrowsTo new :=
  ⟨h'.breakpoint.trans h.breakpoint, h'.source.trans h.source, h.properties.trans h'.properties⟩

/-- Entries that have become compatible have been so before. -/
theorem compatible {left right leftNew rightNew : Entry} (hleft : left.GrowsTo leftNew)
    (hright : right.GrowsTo rightNew) (h : leftNew.Compatible rightNew) :
    left.Compatible right := by
  intro hoverlap p hp q hq
  rw [← hleft.breakpoint, ← hright.breakpoint] at hoverlap
  exact h hoverlap p (hleft.properties.subset hp) q (hright.properties.subset hq)

end Entry.GrowsTo

/-- A merge puts the properties that are new to an entry behind those it has. -/
theorem Entry.growsTo_merge (entry : Entry) (block : Block) :
    entry.GrowsTo { entry with block := entry.block.merge block } where
  breakpoint := rfl
  source := rfl
  properties := by
    rw [Block.properties_merge]
    exact List.prefix_append ..

/-- The entries of the list have grown at their places, and others have been appended. -/
structure EntryList.GrowsTo (old new : EntryList) : Prop where
  cloned : new.cloned = old.cloned
  entries : ∀ (i : Nat) (entry : Entry), old.entries[i]? = some entry →
    ∃ grown, new.entries[i]? = some grown ∧ entry.GrowsTo grown
  /-- Only the entries of a copied list change. -/
  own : old.cloned = false → old.entries <+: new.entries

namespace EntryList

/-- A list grows to itself. -/
theorem GrowsTo.refl (list : EntryList) : list.GrowsTo list where
  cloned := rfl
  entries _ entry hentry := ⟨entry, hentry, .refl entry⟩
  own _ := List.prefix_refl _

/-- What a list grows to may grow further. -/
theorem GrowsTo.trans {old mid new : EntryList} (h : old.GrowsTo mid) (h' : mid.GrowsTo new) :
    old.GrowsTo new where
  cloned := h'.cloned.trans h.cloned
  entries i entry hentry := by
    obtain ⟨grown, hgrown, hfirst⟩ := h.entries i entry hentry
    obtain ⟨last, hlast, hsecond⟩ := h'.entries i grown hgrown
    exact ⟨last, hlast, hfirst.trans hsecond⟩
  own hown := (h.own hown).trans (h'.own (h.cloned.trans hown))

/-- A list grows by a push. -/
theorem growsTo_push (list : EntryList) (entry : Entry) : list.GrowsTo (list.push entry) where
  cloned := rfl
  entries i old hold := by
    obtain ⟨hi, _⟩ := List.getElem?_eq_some_iff.1 hold
    exact ⟨old, by rw [push, List.getElem?_append_left hi, hold], .refl old⟩
  own _ := List.prefix_append ..

/-- A changed entry of a list stands where it stood. -/
theorem getElem?_modifyRange {range : Breakpoint} {change : Entry → Entry} {entries : List Entry}
    {i : Nat} {entry : Entry} (h : entries[i]? = some entry) :
    (modifyRange range change entries)[i]? = some entry ∨
      (modifyRange range change entries)[i]? = some (change entry) := by
  induction entries generalizing i with
  | nil => simp at h
  | cons first rest ih =>
    unfold modifyRange
    by_cases hrange : first.breakpoint = range
    · rw [if_pos hrange]
      cases i with
      | zero =>
        cases h
        exact Or.inr rfl
      | succ i => exact Or.inl h
    · rw [if_neg hrange]
      cases i with
      | zero => exact Or.inl h
      | succ i => exact ih h

/-- A merge lets an entry of a copied list grow. -/
theorem growsTo_mergeAt {list : EntryList} (hcloned : list.cloned = true) (range : Breakpoint)
    (block : Block) : list.GrowsTo (list.mergeAt range block) where
  cloned := rfl
  entries i entry hentry := by
    let merged (entry : Entry) : Entry := { entry with block := entry.block.merge block }
    have hcases : (modifyRange range merged list.entries)[i]? = some entry ∨
        (modifyRange range merged list.entries)[i]? = some (merged entry) :=
      getElem?_modifyRange hentry
    rcases hcases with hsame | hmerged
    · exact ⟨entry, hsame, .refl entry⟩
    · exact ⟨_, hmerged, entry.growsTo_merge block⟩
  own hown := by
    rw [hcloned] at hown
    cases hown

/-- A list keeps the ranges that it has entries for. -/
theorem GrowsTo.hasRange {old new : EntryList} (h : old.GrowsTo new) {range : Breakpoint}
    (hrange : old.hasRange range = true) : new.hasRange range = true := by
  simp only [EntryList.hasRange, List.any_eq_true, decide_eq_true_eq] at hrange ⊢
  obtain ⟨entry, hentry, heq⟩ := hrange
  obtain ⟨i, hi⟩ := List.mem_iff_getElem?.1 hentry
  obtain ⟨grown, hgrown, hgrows⟩ := h.entries i entry hi
  exact ⟨grown, List.mem_of_getElem? hgrown, hgrows.breakpoint.trans heq⟩

end EntryList

namespace StyleTable

/-- Every row has grown at its place, and others have been added behind them. -/
structure GrowsTo (old new : StyleTable) : Prop where
  rows : ∀ (i : Nat) (path : Path) (list : EntryList), old.toList[i]? = some (path, list) →
    ∃ grown, new.toList[i]? = some (path, grown) ∧ list.GrowsTo grown

/-- A table grows to itself. -/
theorem GrowsTo.refl (table : StyleTable) : table.GrowsTo table where
  rows _ _ list hrow := ⟨list, hrow, .refl list⟩

/-- What a table grows to may grow further. -/
theorem GrowsTo.trans {old mid new : StyleTable} (h : old.GrowsTo mid) (h' : mid.GrowsTo new) :
    old.GrowsTo new where
  rows i path list hrow := by
    obtain ⟨grown, hgrown, hfirst⟩ := h.rows i path list hrow
    obtain ⟨last, hlast, hsecond⟩ := h'.rows i path grown hgrown
    exact ⟨last, hlast, hfirst.trans hsecond⟩

/-- A path that has a list has a grown one. -/
theorem GrowsTo.get? {old new : StyleTable} (h : old.GrowsTo new) {path : Path}
    {list : EntryList} (found : old.get? path = some list) :
    ∃ grown, new.get? path = some grown ∧ list.GrowsTo grown := by
  obtain ⟨i, hi⟩ := List.mem_iff_getElem?.1 (get?_eq_some_iff.1 found)
  obtain ⟨grown, hgrown, hlist⟩ := h.rows i path list hi
  exact ⟨grown, get?_eq_some_iff.2 (List.mem_of_getElem? hgrown), hlist⟩

/-- A table that grows keeps its paths. -/
theorem GrowsTo.contains {old new : StyleTable} (h : old.GrowsTo new) {path : Path}
    (hpath : old.contains path = true) : new.contains path = true := by
  rw [contains_eq_isSome_get?, Option.isSome_iff_exists] at hpath
  obtain ⟨list, found⟩ := hpath
  obtain ⟨grown, hgrown, _⟩ := h.get? found
  exact contains_of_get? hgrown

/-- Rows that are added behind the others change none of them. -/
theorem growsTo_of_prefix {old new : StyleTable} (h : old.toList <+: new.toList) :
    old.GrowsTo new where
  rows i path list hrow := by
    obtain ⟨added, hadded⟩ := h
    obtain ⟨hi, _⟩ := List.getElem?_eq_some_iff.1 hrow
    exact ⟨list, by rw [← hadded, List.getElem?_append_left hi, hrow], .refl list⟩

/-- A table grows when the one list that is changed grows. -/
theorem growsTo_modify {table : StyleTable} {path : Path} {change : EntryList → EntryList}
    (h : ∀ list, table.get? path = some list → list.GrowsTo (change list)) :
    table.GrowsTo (table.modify path change) where
  rows i other list hrow := by
    rw [toList_modify, List.getElem?_map, hrow, Option.map_some]
    by_cases hpath : other = path
    · subst hpath
      rw [if_pos rfl]
      exact ⟨_, rfl, h list (get?_eq_some_iff.2 (List.mem_of_getElem? hrow))⟩
    · rw [if_neg hpath]
      exact ⟨list, rfl, .refl list⟩

/-- A table grows by the copies of a base. -/
theorem growsTo_cloneBase {table cloned : StyleTable} {base target : Fragment}
    {source : Option Location} (h : table.cloneBase base target source = .ok cloned) :
    table.GrowsTo cloned :=
  growsTo_of_prefix ⟨_, (toList_cloneBase h).symm⟩

/-- A table grows by filing an entry. -/
theorem growsTo_file {table : StyleTable} {path : Path} {entry : Entry} {filing : Filing}
    (h : table.filing path entry = .ok filing) :
    table.GrowsTo (table.file path entry filing) := by
  cases filing with
  | opened =>
    have habsent : table.contains path = false :=
      contains_eq_false_iff.2 (filing_eq_ok_iff.1 h)
    exact growsTo_of_prefix ⟨_, (toList_insert_of_not_contains habsent _).symm⟩
  | merged =>
    obtain ⟨old, hold, hcloned, _⟩ := filing_eq_ok_iff.1 h
    rw [file]
    refine growsTo_modify fun list found => ?_
    rw [hold] at found
    cases found
    exact EntryList.growsTo_mergeAt hcloned ..
  | appended => exact growsTo_modify fun list _ => list.growsTo_push entry

/-- A table grows by placing a node. -/
theorem growsTo_place (table : StyleTable) (visit : Visit) :
    table.GrowsTo (table.place visit).table :=
  place_induction (P := table.GrowsTo) (fun hclone h => h.trans (growsTo_cloneBase hclone))
    (fun hfiling h => h.trans (growsTo_file hfiling)) table visit (.refl table)

end StyleTable

/-- A table grows through a run, whether the run fails or not. -/
theorem Progress.growsTo_run (progress : Progress) (visits : List Visit) :
    progress.table.GrowsTo (progress.run visits).table :=
  table_run_induction (P := progress.table.GrowsTo)
    (fun table visit _ h => h.trans (table.growsTo_place visit)) (.refl _)

namespace StyleTable

/-- A table grows by assembling a tree. -/
theorem growsTo_assemble (table : StyleTable) (node : Node) :
    table.GrowsTo (table.assemble node none none).table :=
  Progress.growsTo_run (.start table) (node.visits none none)

/-- When a tree is assembled, with or without success, every row keeps its place, its path and its
mark. Its list stays as it is unless the path starts with the root of the tree. If it does, the
entries keep their places, ranges and sources and have their properties followed by new ones, and a
list that is not a copy has entries appended at most. -/
theorem rows_kept_by_assemble (table : StyleTable) (node : Node) {i : Nat} {path : Path}
    {old : EntryList} (h : table.toList[i]? = some (path, old)) :
    ∃ new, (table.assemble node none none).table.toList[i]? = some (path, new) ∧
      new.cloned = old.cloned ∧
      (path.startsWith node.fragment = false → new = old) ∧
      (∀ (j : Nat) (entry : Entry), old.entries[j]? = some entry →
        ∃ grown, new.entries[j]? = some grown ∧ grown.breakpoint = entry.breakpoint ∧
          grown.source = entry.source ∧ entry.block.properties <+: grown.block.properties) ∧
      (old.cloned = false → old.entries <+: new.entries) := by
  obtain ⟨new, hrow, hgrows⟩ := (table.growsTo_assemble node).rows i path old h
  refine ⟨new, hrow, hgrows.cloned, fun hpath => ?_, fun j entry hentry => ?_, hgrows.own⟩
  · have hkept := get?_assemble_of_not_startsWith table hpath
    rw [get?_eq_some_iff.2 (List.mem_of_getElem? h),
      get?_eq_some_iff.2 (List.mem_of_getElem? hrow)] at hkept
    exact Option.some.inj hkept
  · obtain ⟨grown, hgrown, hentryGrows⟩ := hgrows.entries j entry hentry
    exact ⟨grown, hgrown, hentryGrows.breakpoint, hentryGrows.source, hentryGrows.properties⟩

/-- A second tree for a large button fails at its span. Its border has been merged by then, behind
the properties that the large button had. -/
theorem large_button_row_kept :
    let base := Node.mk "button" { className := "primary" } "color: red;"
      [Node.mk "span" {} "margin: 0;" []]
    let large := Node.mk "button" { className := "primary.large" } "padding: 8px;" []
    let again := Node.mk "button" { className := "primary.large" } "border: 0;"
      [Node.mk "span" {} "bold" []]
    let table := ((empty.assemble base none none).table.assemble large none none).table
    let path := Path.root large.fragment
    (table.assemble again none none).failure.isSome = true ∧
      ∃ (old : EntryList) (entry : Entry), table.toList[2]? = some (path, old) ∧
        old.entries[0]? = some entry ∧ entry.block.properties = ["color", "padding"] ∧
        ∃ (new : EntryList) (grown : Entry),
          (table.assemble again none none).table.toList[2]? = some (path, new) ∧
          new.cloned = old.cloned ∧ new.entries[0]? = some grown ∧
          ["color", "padding"] <+: grown.block.properties := by
  intro base large again table path
  let entry : Entry :=
    ⟨⟨[{ property := "color", value := "red" }, { property := "padding", value := "8px" }]⟩,
      ⟨0, none⟩, none⟩
  have hrow : table.toList[2]? = some (path, ⟨[entry], true⟩) := by decide +kernel
  obtain ⟨new, hnew, hcloned, _, hentries, _⟩ := rows_kept_by_assemble table again hrow
  obtain ⟨grown, hgrown, _, _, hproperties⟩ := hentries 0 entry rfl
  exact ⟨by decide +kernel, _, entry, hrow, rfl, rfl, new, grown, hnew, hcloned, hgrown,
    hproperties⟩

end StyleTable

/-- A table that has grown into a consistent one was consistent before. -/
theorem StyleTable.GrowsTo.inconsistency?_eq_none {old new : StyleTable} (h : old.GrowsTo new)
    (hnew : new.inconsistency? = none) : old.inconsistency? = none := by
  rw [inconsistency?_eq_scan?, scan?_eq_none_iff] at hnew ⊢
  intro short long shortList longList hshort hlong hsuffix control hcontrol candidate hcandidate
  obtain ⟨shortNew, hshortNew, hshortGrows⟩ := h.get? hshort
  obtain ⟨longNew, hlongNew, hlongGrows⟩ := h.get? hlong
  obtain ⟨i, hi⟩ := List.mem_iff_getElem?.1 hcontrol
  obtain ⟨j, hj⟩ := List.mem_iff_getElem?.1 hcandidate
  obtain ⟨controlNew, hcontrolNew, hcontrolGrows⟩ := hshortGrows.entries i control hi
  obtain ⟨candidateNew, hcandidateNew, hcandidateGrows⟩ := hlongGrows.entries j candidate hj
  have hfree := hnew short long shortNew longNew hshortNew hlongNew hsuffix controlNew
    (List.mem_of_getElem? hcontrolNew) candidateNew (List.mem_of_getElem? hcandidateNew)
  rw [Entry.conflict?_eq_none_iff] at hfree ⊢
  exact hcontrolGrows.compatible hcandidateGrows hfree

/-- A forest that compiles with trees appended to it compiles without them. -/
theorem Compiler.isOk_compile_of_append (compiler : Compiler) {forest added : List Node}
    (h : (compiler.compile (forest ++ added)).1.isOk = true) :
    (compiler.compile forest).1.isOk = true := by
  rw [compiler.fst_compile, StyleForest.compile, Progress.isOk_finish_iff] at h ⊢
  obtain ⟨hend, hconsistent⟩ := h
  rw [assembleForest_append] at hend hconsistent
  exact ⟨Progress.failure_eq_none_of_run hend,
    (Progress.growsTo_run ..).inconsistency?_eq_none hconsistent⟩

/-- A button compiles without the large button that starts from a copy of it. -/
theorem Compiler.button_compiles_alone :
    let forest := [Node.mk "button" { className := "primary" } "color: red;"
      [Node.mk "span" {} "margin: 0;" []]]
    let added := [Node.mk "button" { className := "primary.large" } "padding: 8px;"
      [Node.mk "span" {} "margin: 4px;" []]]
    (Compiler.new.compile (forest ++ added)).1.isOk = true ∧
      (Compiler.new.compile forest).1.isOk = true := by
  intro forest added
  have hok : (Compiler.new.compile (forest ++ added)).1.isOk = true := by decide +kernel
  exact ⟨hok, Compiler.new.isOk_compile_of_append hok⟩

end StyleForest
