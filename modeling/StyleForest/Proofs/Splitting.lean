import StyleForest.Proofs.Condensing
import StyleForest.Proofs.Growth

/-!
# Dividing a node

A node of a forest is divided when its children are handed out to two nodes that stand in its
place, and the second of these has no declarations. A walk then meets the node a second time, on a
table that has taken it already (`StyleTable.Settled`): its base has been copied, and its path has
an entry for its range. So the second visit leaves nothing behind but a spare entry, and the forest
compiles to what it has compiled to before (`Compiler.compile_divided`).
-/

namespace StyleForest

/-- The second forest is the first one with a node divided in two. -/
inductive Divided : List Node → List Node → Prop
  /-- The first tree is divided, its children into an upper and a lower part. -/
  | here (element : String) (attributes : Attributes) (declarations : String)
      (upper lower rest : List Node) :
      Divided (.mk element attributes declarations (upper ++ lower) :: rest)
        (.mk element attributes declarations upper :: .mk element attributes "" lower :: rest)
  /-- A node below the root of the first tree is divided. -/
  | inside (element : String) (attributes : Attributes) (declarations : String)
      {children divided : List Node} (rest : List Node) (h : Divided children divided) :
      Divided (.mk element attributes declarations children :: rest)
        (.mk element attributes declarations divided :: rest)
  /-- A node of a later tree is divided. -/
  | later (node : Node) {rest divided : List Node} (h : Divided rest divided) :
      Divided (node :: rest) (node :: divided)

/-- The same node without its declarations. -/
def Visit.emptied (visit : Visit) : Visit :=
  { visit with declarations := "" }

/-- A walk of a divided forest meets one node again without its declarations, after some of the
trees below it, and is the same walk otherwise. -/
theorem Divided.exists_visits {forest divided : List Node} (h : Divided forest divided)
    (parent : Option Path) (scope : Option Scope) :
    ∃ before visit upper after,
      Node.visitsOfAll parent scope forest = before ++ visit ::
        (Node.visitsOfAll (some visit.path) visit.innerScope upper ++ after) ∧
      Node.visitsOfAll parent scope divided = before ++ visit ::
        (Node.visitsOfAll (some visit.path) visit.innerScope upper ++ visit.emptied :: after) := by
  induction h generalizing parent scope with
  | here element attributes declarations upper lower rest =>
    let visit : Visit := { parent, scope, element, attributes, declarations }
    refine ⟨[], visit, upper, Node.visitsOfAll (some visit.path) visit.innerScope lower ++
      Node.visitsOfAll parent scope rest, ?_, ?_⟩
    · rw [Node.visitsOfAll, Node.visits, Node.visitsOfAll_append, List.cons_append,
        List.append_assoc]
      rfl
    · rw [Node.visitsOfAll, Node.visitsOfAll, Node.visits, Node.visits]
      rfl
  | inside element attributes declarations rest _ ih =>
    let root : Visit := { parent, scope, element, attributes, declarations }
    obtain ⟨before, visit, upper, after, hforest, hdivided⟩ := ih (some root.path) root.innerScope
    refine ⟨root :: before, visit, upper, after ++ Node.visitsOfAll parent scope rest, ?_, ?_⟩
    · rw [Node.visitsOfAll, Node.visits, hforest]
      simp only [List.cons_append, List.append_assoc]
      rfl
    · rw [Node.visitsOfAll, Node.visits, hdivided]
      simp only [List.cons_append, List.append_assoc]
      rfl
  | later node _ ih =>
    obtain ⟨before, visit, upper, after, hforest, hdivided⟩ := ih parent scope
    refine ⟨node.visits parent scope ++ before, visit, upper, after, ?_, ?_⟩
    · rw [Node.visitsOfAll, hforest, List.append_assoc]
    · rw [Node.visitsOfAll, hdivided, List.append_assoc]

namespace StyleTable

variable {table later : StyleTable} {base target : Fragment}

/-- Rows for paths that have a row are not added. -/
theorem foldl_addNew_of_contains {rows : List (Path × EntryList)}
    (h : ∀ row ∈ rows, table.contains row.1 = true) : rows.foldl addNew table = table := by
  induction rows with
  | nil => rfl
  | cons row rest ih =>
    rw [List.forall_mem_cons] at h
    rw [List.foldl_cons, addNew, if_pos h.1, ih h.2]

/-- The base is filed, and whatever is filed below it is filed below the target too. -/
structure HasCopies (table : StyleTable) (base target : Fragment) : Prop where
  filed : table.contains (Path.root base) = true
  moved : ∀ path, table.contains path = true → path.startsWith base = true →
    table.contains (path.rebase target) = true

/-- Copying a base once more adds nothing. -/
theorem HasCopies.cloneBase (h : table.HasCopies base target) (source : Option Location) :
    table.cloneBase base target source = .ok table := by
  refine cloneBase_eq_ok_iff.2 ⟨h.filed, (foldl_addNew_of_contains fun row hrow => ?_).symm⟩
  obtain ⟨path, list, found, hstart, rfl⟩ := mem_clonesOf_iff.1 hrow
  exact h.moved path (contains_of_get? found) hstart

/-- Copying a base leaves nothing to copy. -/
theorem hasCopies_of_cloneBase {cloned : StyleTable} {source : Option Location}
    (hne : base ≠ target) (h : table.cloneBase base target source = .ok cloned) :
    cloned.HasCopies base target where
  filed := contains_of_cloneBase h (cloneBase_eq_ok_iff.1 h).1
  moved path hpath hstart := by
    have hother : path.startsWith target = false := Path.startsWith_eq_false hstart hne
    rw [contains_eq_isSome_get?, get?_cloneBase h, hother, if_neg nofun, Option.or_none] at hpath
    rw [contains_eq_isSome_get?, get?_cloneBase h, if_pos (Path.startsWith_rebase hstart target),
      Path.rebase_rebase hstart target, Option.isSome_or, Option.isSome_map, hpath, Bool.or_true]

/-- A table that has gained nothing below the base has nothing to copy either. -/
theorem HasCopies.of_growsTo (h : table.HasCopies base target) (hgrows : table.GrowsTo later)
    (hbase : ∀ path, path.startsWith base = true → later.get? path = table.get? path) :
    later.HasCopies base target where
  filed := hgrows.contains h.filed
  moved path hpath hstart := by
    rw [contains_eq_isSome_get?, hbase path hstart, ← contains_eq_isSome_get?] at hpath
    exact hgrows.contains (h.moved path hpath hstart)

/-- A node without declarations has an empty block. -/
theorem readBlock_empty (path : Path) (element : String) (source : Option Location) :
    readBlock path element "" source = .ok Block.empty := by
  refine readBlock_eq_ok_iff.2 ⟨by decide +kernel, ?_⟩
  simp [Block.properties, Block.empty]

/-- The path has an entry for the range. -/
def HasEntry (table : StyleTable) (path : Path) (range : Breakpoint) : Prop :=
  ∃ list, table.get? path = some list ∧ list.hasRange range = true

/-- A table that grows keeps the ranges at its paths. -/
theorem HasEntry.of_growsTo {path : Path} {range : Breakpoint} (h : table.HasEntry path range)
    (hgrows : table.GrowsTo later) : later.HasEntry path range := by
  obtain ⟨list, found, hrange⟩ := h
  obtain ⟨grown, hgrown, hlist⟩ := hgrows.get? found
  exact ⟨grown, hgrown, hlist.hasRange hrange⟩

/-- What is filed has its path and its range in the table. -/
theorem hasEntry_file {path : Path} {entry : Entry} {filing : Filing}
    (h : table.filing path entry = .ok filing) :
    (table.file path entry filing).HasEntry path entry.breakpoint := by
  rw [HasEntry, get?_file, if_pos rfl]
  cases filing with
  | opened => exact ⟨_, rfl, by simp [EntryList.single, EntryList.hasRange]⟩
  | merged =>
    obtain ⟨list, found, hcloned, hrange⟩ := filing_eq_ok_iff.1 h
    rw [found]
    exact ⟨_, rfl, (EntryList.growsTo_mergeAt hcloned ..).hasRange hrange⟩
  | appended =>
    obtain ⟨list, found, _⟩ := filing_eq_ok_iff.1 h
    rw [found]
    exact ⟨_, rfl, by simp [EntryList.push, EntryList.hasRange]⟩

/-- An empty entry for a range that its path has is filed and makes no difference. -/
theorem exists_filing_of_hasEntry {path : Path} {range : Breakpoint}
    (h : table.HasEntry path range) (source : Option Location) :
    ∃ filing, table.filing path ⟨Block.empty, range, source⟩ = .ok filing ∧
      SameCondensed table (table.file path ⟨Block.empty, range, source⟩ filing) := by
  obtain ⟨list, found, hrange⟩ := h
  by_cases hcloned : list.cloned = true
  · refine ⟨.merged, filing_eq_ok_iff.2 ⟨list, found, hcloned, hrange⟩, ?_⟩
    exact sameCondensed_modify found (by rw [EntryList.mergeAt_empty])
  · have hfree (existing : Entry) :
        existing.conflict? path ⟨Block.empty, range, source⟩ = none :=
      Entry.conflict?_eq_none_iff.2 (Entry.compatible_of_isEmpty rfl existing).symm
    refine ⟨.appended, filing_eq_ok_iff.2 ⟨list, found, fun h => hcloned h.1, fun existing _ =>
      hfree existing⟩, ?_⟩
    exact sameCondensed_modify found (EntryList.condense_push_of_spare rfl hrange)

/-- The table has taken the node: its path has an entry for its range, and its base is copied. -/
structure Settled (table : StyleTable) (visit : Visit) (placement : Placement) : Prop where
  accepted : visit.placement = .ok placement
  entry : table.HasEntry visit.path placement.range
  copies : ∀ base, visit.Copies base → table.HasCopies base visit.fragment

variable {visit : Visit} {placement : Placement}

/-- A node that is placed without failure is settled. -/
theorem exists_settled_of_place (h : (table.place visit).failure = none) :
    ∃ placement, (table.place visit).table.Settled visit placement := by
  obtain ⟨prepared, entry, filing, harrival, hfiling, htable⟩ := exists_filed_of_place h
  obtain ⟨placement, block, hplacement, hprepare, _, rfl⟩ := arrival_eq_ok_iff.1 harrival
  rw [htable]
  refine ⟨placement, hplacement, hasEntry_file hfiling, fun base hcopies => ?_⟩
  have hclone : table.cloneBase base visit.fragment visit.source = .ok prepared := by
    rw [prepare, (Visit.copies_iff hplacement).1 hcopies] at hprepare
    exact hprepare
  -- The copies are there once the base is copied, and the entry is not filed below the base.
  refine (hasCopies_of_cloneBase hcopies.base_ne hclone).of_growsTo (growsTo_file hfiling)
    fun path hstart => ?_
  have hother : path ≠ visit.path := by
    rintro rfl
    exact hcopies.base_ne (Visit.fragment_eq_of_startsWith hcopies.parent_eq_none hstart).symm
  rw [get?_file, if_neg hother]

/-- Placing nodes below a settled one leaves it settled. -/
theorem Settled.run_below {progress : Progress} (h : progress.table.Settled visit placement)
    (scope : Option Scope) (nodes : List Node) :
    (progress.run (Node.visitsOfAll (some visit.path) scope nodes)).table.Settled visit
      placement := by
  have hgrows := progress.growsTo_run (Node.visitsOfAll (some visit.path) scope nodes)
  refine ⟨h.accepted, h.entry.of_growsTo hgrows, fun base hcopies => ?_⟩
  refine (h.copies base hcopies).of_growsTo hgrows fun path hstart => ?_
  have hroot := Visit.startsWith_fragment hcopies.parent_eq_none
  exact get?_run_of_not_startsWith
    (fun other hmem => startsWith_of_mem_visitsOfAll_below hroot nodes hmem)
    (Path.startsWith_eq_false hstart hcopies.base_ne)

/-- Placing a settled node again without its declarations makes no difference. -/
theorem Settled.place_emptied (h : table.Settled visit placement) :
    (Progress.start table).Related SameCondensed (table.place visit.emptied) := by
  have hprepare : table.prepare visit.emptied placement = .ok table := by
    unfold prepare
    cases hcopied : placement.base with
    | none => rfl
    | some base =>
      have hcopies := (Visit.copies_iff h.accepted).2 hcopied
      exact (h.copies base hcopies).cloneBase visit.source
  have harrival : table.arrival visit.emptied =
      .ok (table, ⟨Block.empty, placement.range, visit.source⟩) :=
    arrival_eq_ok_iff.2 ⟨placement, Block.empty, h.accepted, hprepare, readBlock_empty .., rfl⟩
  obtain ⟨filing, hfiling, hsame⟩ := exists_filing_of_hasEntry h.entry visit.source
  have hplace : table.place visit.emptied =
      ⟨table.file visit.path ⟨Block.empty, placement.range, visit.source⟩ filing, none⟩ :=
    place_eq_filed_iff.2 ⟨table, _, filing, harrival, hfiling, rfl⟩
  rw [hplace]
  exact ⟨rfl, hsame⟩

end StyleTable

/-- Visiting a node again without its declarations, after nodes below it, makes no difference. -/
theorem Progress.related_step_emptied (progress : Progress) (visit : Visit) (scope : Option Scope)
    (nodes : List Node) :
    let filed := progress.run (visit :: Node.visitsOfAll (some visit.path) scope nodes)
    filed.Related StyleTable.SameCondensed (filed.step visit.emptied) := by
  intro filed
  cases hfiled : filed.failure with
  | some error =>
    have hsame : filed.step visit.emptied = filed := by rw [step, hfiled]
    rw [hsame]
    exact ⟨rfl, rfl⟩
  | none =>
    have hrun : filed = (progress.table.place visit).run _ :=
      run_cons_of_running (failure_eq_none_of_run hfiled) visit _
    have hplaced : (progress.table.place visit).failure = none :=
      failure_eq_none_of_run (hrun ▸ hfiled)
    obtain ⟨placement, hsettled⟩ := StyleTable.exists_settled_of_place hplaced
    have hkept : filed.table.Settled visit placement := hrun ▸ hsettled.run_below scope nodes
    have hagain : filed.step visit.emptied = filed.table.place visit.emptied := by
      rw [step, hfiled]
    rw [hagain]
    exact ⟨hfiled.trans hkept.place_emptied.failure, hkept.place_emptied.table⟩

/-- A divided forest is assembled into the same table, up to spare entries, or fails alike. -/
theorem Divided.related_assembleForest {forest divided : List Node} (h : Divided forest divided) :
    (assembleForest forest).Related StyleTable.SameCondensed (assembleForest divided) := by
  obtain ⟨before, visit, upper, after, hforest, hdivided⟩ := h.exists_visits none none
  rw [assembleForest, assembleForest, hforest, hdivided, Progress.run_append, Progress.run_append]
  generalize (Progress.start StyleTable.empty).run before = progress
  rw [← List.cons_append, ← List.cons_append, Progress.run_append, Progress.run_append]
  exact (progress.related_step_emptied visit visit.innerScope upper).run
    fun other _ => StyleTable.placingLaw_condensed other

/-- A forest compiles to the same stylesheet, or fails with the same error, when one of its nodes
is divided. -/
theorem Compiler.compile_divided (compiler : Compiler) {forest divided : List Node}
    (h : Divided forest divided) :
    (compiler.compile divided).1 = (compiler.compile forest).1 := by
  rw [compiler.fst_compile, compiler.fst_compile]
  exact h.related_assembleForest.finish_eq.symm

/-- A large button can be divided between its span and its emphasis, although its second half
starts from a copy of the button again. -/
theorem Compiler.large_button_divided :
    let base := Node.mk "button" { className := "primary" } "color: red;"
      [Node.mk "span" {} "margin: 0;" []]
    let span := Node.mk "span" {} "margin: 4px;" []
    let em := Node.mk "em" {} "padding: 2px;" []
    let whole := Node.mk "button" { className := "primary.large" } "padding: 8px;" [span, em]
    let upper := Node.mk "button" { className := "primary.large" } "padding: 8px;" [span]
    let lower := Node.mk "button" { className := "primary.large" } "" [em]
    (Compiler.new.compile [base, whole]).1.isOk = true ∧
      (Compiler.new.compile [base, upper, lower]).1 = (Compiler.new.compile [base, whole]).1 := by
  intro base span em whole upper lower
  have hdivided : Divided [base, whole] [base, upper, lower] :=
    .later base (.here "button" { className := "primary.large" } "padding: 8px;" [span] [em] [])
  exact ⟨by decide +kernel, Compiler.new.compile_divided hdivided⟩

end StyleForest
