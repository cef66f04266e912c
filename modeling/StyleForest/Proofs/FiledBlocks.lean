import StyleForest.Proofs.Placement
import StyleForest.Proofs.Provenance

/-!
# What the blocks of a table meet

A block of a table was read for a node at the path of that node, or it was copied to a path that
is moved below a subclass, or a block that was read has been merged into it. So a condition on
blocks, which may depend on the path a block is filed under, holds throughout a table when reading,
copying and merging keep it (`StyleTable.BlockLaw`). In particular every block of an assembled table
is composed, so that its declarations are readable.
-/

namespace StyleForest

/-- The declarations of the visit are read into the block. -/
def Visit.ReadsBlock (visit : Visit) (block : Block) : Prop :=
  readBlock visit.path visit.element visit.declarations visit.source = .ok block

/-- The entry that a merge changes is the only one that was not in the list before. -/
theorem EntryList.mem_modifyRange {range : Breakpoint} {change : Entry → Entry}
    {entries : List Entry} {entry : Entry} (h : entry ∈ modifyRange range change entries) :
    entry ∈ entries ∨ ∃ old ∈ entries, entry = change old := by
  induction entries with
  | nil => exact Or.inl h
  | cons first rest ih =>
    unfold modifyRange at h
    split at h
    · rcases List.mem_cons.1 h with hchanged | hrest
      · exact Or.inr ⟨first, List.mem_cons_self, hchanged⟩
      · exact Or.inl (List.mem_cons_of_mem first hrest)
    · rcases List.mem_cons.1 h with hfirst | hrest
      · exact Or.inl (hfirst ▸ List.mem_cons_self)
      · rcases ih hrest with hkept | ⟨old, hold, hchanged⟩
        · exact Or.inl (List.mem_cons_of_mem first hkept)
        · exact Or.inr ⟨old, List.mem_cons_of_mem first hold, hchanged⟩

namespace StyleTable

/-- Where an entry comes from that the table has after an entry is filed: it was there before, it is
the entry that is filed, or that entry was merged into it. -/
inductive FiledFrom (table : StyleTable) (path : Path) (entry : Entry) : Path → Entry → Prop
  | kept {other : Path} {list : EntryList} {old : Entry} :
      table.get? other = some list → old ∈ list.entries → FiledFrom table path entry other old
  | filed : FiledFrom table path entry path entry
  | merged {list : EntryList} {old : Entry} :
      table.get? path = some list → old ∈ list.entries →
      FiledFrom table path entry path { old with block := old.block.merge entry.block }

/-- Every entry of a table in which an entry was filed was kept, filed or merged. -/
theorem filedFrom_of_file {table : StyleTable} {path other : Path} {entry present : Entry}
    {filing : Filing} {list : EntryList}
    (found : (table.file path entry filing).get? other = some list)
    (hpresent : present ∈ list.entries) : table.FiledFrom path entry other present := by
  rw [get?_file] at found
  split at found
  · next hpath =>
    subst hpath
    cases filing with
    | opened =>
      cases found
      rw [List.mem_singleton.1 hpresent]
      exact .filed
    | merged =>
      obtain ⟨old, hold, rfl⟩ := Option.map_eq_some_iff.1 found
      rcases EntryList.mem_modifyRange hpresent with hkept | ⟨target, htarget, rfl⟩
      · exact .kept hold hkept
      · exact .merged hold htarget
    | appended =>
      obtain ⟨old, hold, rfl⟩ := Option.map_eq_some_iff.1 found
      rcases List.mem_append.1 hpresent with hkept | hlast
      · exact .kept hold hkept
      · rw [List.mem_singleton.1 hlast]
        exact .filed
  · exact .kept found hpresent

/-- Every block of the table meets the condition at the path it is filed under. -/
def BlocksMeet (table : StyleTable) (Q : Path → Block → Prop) : Prop :=
  ∀ (path : Path) (list : EntryList), table.get? path = some list →
    ∀ entry ∈ list.entries, Q path entry.block

/-- A condition that holds of what is read and is kept by copying and by merging. -/
structure BlockLaw (Q : Path → Block → Prop) : Prop where
  read : ∀ {visit : Visit} {block : Block}, visit.ReadsBlock block → Q visit.path block
  copy : ∀ {path : Path} {block : Block} {base target : Fragment}, target.base? = some base →
    path.startsWith base = true → Q path block → Q (path.rebase target) block
  merge : ∀ {visit : Visit} {old block : Block}, visit.ReadsBlock block → Q visit.path old →
    Q visit.path (old.merge block)

/-- The empty table meets every condition. -/
theorem blocksMeet_empty (Q : Path → Block → Prop) : empty.BlocksMeet Q := by
  intro path list found
  simp at found

namespace BlockLaw

variable {Q : Path → Block → Prop} {table : StyleTable} {visit : Visit}

/-- Copies have the blocks of their originals at moved paths. -/
theorem prepared (law : BlockLaw Q) {prepared : StyleTable}
    (hprepared : table.Prepared visit prepared) (h : table.BlocksMeet Q) :
    prepared.BlocksMeet Q := by
  cases hprepared with
  | plain => exact h
  | copied _ hbase hclone =>
    intro path list found
    rcases get?_cloneBase_cases hclone found with
      hold | ⟨_, origin, old, hold, hstart, rfl, rfl⟩
    · exact h path list hold
    · intro entry hentry
      exact law.copy hbase hstart (h origin old hold entry hentry)

/-- Filing what is read for a visit gives its path the block or merges the block into one that is
there. -/
theorem file (law : BlockLaw Q) {entry : Entry} (hread : visit.ReadsBlock entry.block)
    (filing : Filing) (h : table.BlocksMeet Q) :
    (table.file visit.path entry filing).BlocksMeet Q := by
  intro path list found present hpresent
  cases filedFrom_of_file found hpresent with
  | kept hold hkept => exact h path _ hold present hkept
  | filed => exact law.read hread
  | merged hold hmerged => exact law.merge hread (h _ _ hold _ hmerged)

/-- Placing a node keeps a law of blocks. -/
theorem place (law : BlockLaw Q) (table : StyleTable) (visit : Visit) (h : table.BlocksMeet Q) :
    (table.place visit).table.BlocksMeet Q := by
  have houtcome := outcome_place table visit
  generalize table.place visit = progress at houtcome ⊢
  cases houtcome with
  | refused error => exact h
  | stopped error hprepared => exact law.prepared hprepared h
  | filed harrival _ =>
    have hprepared := law.prepared (prepared_of_arrival harrival) h
    obtain ⟨_, block, _, _, hblock, rfl⟩ := arrival_eq_ok_iff.1 harrival
    refine law.file ?_ _ hprepared
    exact hblock

/-- The blocks of every reachable table meet a condition that has a law. -/
theorem reachable (law : BlockLaw Q) (h : Reachable table) : table.BlocksMeet Q :=
  h.induction (blocksMeet_empty Q) law.place

/-- The blocks of every assembled table meet a condition that has a law. -/
theorem assembleForest (law : BlockLaw Q) (forest : List Node) :
    (assembleForest forest).table.BlocksMeet Q :=
  assembleForest_induction (blocksMeet_empty Q) law.place forest

end BlockLaw

/-- What is read for a visit is parsed, and so is everything that is merged. -/
theorem blockLaw_composed : BlockLaw fun _ block => block.Composed where
  read hread := .parse (readBlock_eq_ok_iff.1 hread).1
  copy _ _ hcomposed := hcomposed
  merge hread hold := hold.merge (readBlock_eq_ok_iff.1 hread).1

end StyleTable

/-- Every block of an assembled table is composed. -/
theorem composed_of_assembleForest (forest : List Node) :
    (assembleForest forest).table.BlocksMeet fun _ block => block.Composed :=
  StyleTable.blockLaw_composed.assembleForest forest

end StyleForest
