import Mathlib.Data.List.Pairwise
import StyleForest.Forest.Compiler
import StyleForest.Proofs.Immutability

/-!
# Merging into copied entries

A block of a subclass is merged into the copied entry of its range without being compared with
the other entries of the list. So the entries of a copied list stay compatible through a run
exactly when every block that was merged was compatible with all the others. A merge that misses
this leaves two entries with one property for a common width.
-/

namespace StyleForest

/-- A merge is compatible with a block exactly when both of its parts are. -/
theorem Block.compatible_merge_iff {block other third : Block} :
    (block.merge other).Compatible third ↔ block.Compatible third ∧ other.Compatible third := by
  unfold Block.Compatible
  simp only [mem_properties_merge]
  constructor
  · intro h
    exact ⟨fun p hp => h p (Or.inl hp), fun p hp => h p (Or.inr hp)⟩
  · rintro ⟨hblock, hother⟩ p (hp | hp)
    · exact hblock p hp
    · exact hother p hp

/-- The block of the entry is what some text says. -/
def Entry.IsRead (entry : Entry) : Prop :=
  ∃ text, Block.parse text = .ok entry.block

namespace EntryList

/-- The first entry for exactly this range. -/
def first? (list : EntryList) (range : Breakpoint) : Option Entry :=
  list.entries.find? fun entry => entry.breakpoint = range

/-- All entries but the first one for exactly this range. -/
def others (list : EntryList) (range : Breakpoint) : List Entry :=
  list.entries.eraseP fun entry => entry.breakpoint = range

/-- The entries that a merge leaves as they are all agree with the entry that is merged. -/
def Admits (list : EntryList) (entry : Entry) : Prop :=
  ∀ other ∈ list.others entry.breakpoint, entry.Compatible other

instance (list : EntryList) (entry : Entry) : Decidable (list.Admits entry) :=
  inferInstanceAs (Decidable (∀ other ∈ list.others entry.breakpoint, entry.Compatible other))

/-- A list with an entry for a range is cut at the first such entry. -/
theorem exists_split_of_hasRange {list : EntryList} {range : Breakpoint}
    (h : list.hasRange range = true) :
    ∃ before target after, target.breakpoint = range ∧ list.first? range = some target ∧
      list.entries = before ++ target :: after ∧
      list.others range = before ++ after ∧
      ∀ change, modifyRange range change list.entries = before ++ change target :: after := by
  obtain ⟨entries, cloned⟩ := list
  simp only [hasRange, others, first?] at h ⊢
  induction entries with
  | nil => simp at h
  | cons entry rest ih =>
    by_cases hr : entry.breakpoint = range
    · exact ⟨[], entry, rest, hr, by simp [hr], rfl, by simp [hr],
        fun change => by simp [modifyRange, hr]⟩
    · have hrest : rest.any (fun entry => entry.breakpoint = range) = true := by simpa [hr] using h
      obtain ⟨before, target, after, htarget, hfirst, hsplit, hothers, hmodify⟩ := ih hrest
      refine ⟨entry :: before, target, after, htarget, ?_, by rw [hsplit]; rfl, ?_, ?_⟩
      · rw [List.find?_cons_of_neg (by simpa using hr), hfirst]
      · rw [List.eraseP_cons_of_neg (by simpa using hr), hothers, List.cons_append]
      · intro change
        rw [modifyRange, if_neg hr, hmodify, List.cons_append]

/-- A merge leaves a list compatible exactly when the list was and admits the merged entry. -/
theorem compatible_mergeAt_iff {list : EntryList} {entry : Entry}
    (h : list.hasRange entry.breakpoint = true) :
    (list.mergeAt entry.breakpoint entry.block).Compatible ↔
      list.Compatible ∧ list.Admits entry := by
  obtain ⟨before, target, after, htarget, _, hsplit, hothers, hmodify⟩ :=
    exists_split_of_hasRange h
  have merged (other : Entry) :
      Entry.Compatible { target with block := target.block.merge entry.block } other ↔
        target.Compatible other ∧ entry.Compatible other := by
    simp only [Entry.Compatible, Block.compatible_merge_iff, htarget]
    exact imp_and
  have entries_mergeAt : (list.mergeAt entry.breakpoint entry.block).entries =
      before ++ { target with block := target.block.merge entry.block } :: after := hmodify _
  -- The merged entry can be moved to the front, because compatibility is symmetric.
  rw [Compatible, entries_mergeAt, List.pairwise_middle Entry.Compatible.symm, List.pairwise_cons,
    Compatible, hsplit, List.pairwise_middle Entry.Compatible.symm, List.pairwise_cons, Admits,
    hothers]
  constructor
  · rintro ⟨hmerged, hrest⟩
    exact ⟨⟨fun other ho => ((merged other).1 (hmerged other ho)).1, hrest⟩,
      fun other ho => ((merged other).1 (hmerged other ho)).2⟩
  · rintro ⟨⟨hold, hrest⟩, hentry⟩
    exact ⟨fun other ho => (merged other).2 ⟨hold other ho, hentry other ho⟩, hrest⟩

/-- A condition on lists that only a merge can break: a list that is opened meets it, copying and
appending keep it, and a merge keeps it exactly when the list and the merged entry are related. -/
structure MergeLaw (P : EntryList → Prop) (R : EntryList → Entry → Prop) : Prop where
  single : ∀ {entry : Entry}, entry.IsRead → P (single entry)
  clone : ∀ {list : EntryList}, P list.clone ↔ P list
  push : ∀ {list : EntryList} {entry : Entry}, entry.IsRead →
    (∀ existing ∈ list.entries, existing.Compatible entry) → (P (list.push entry) ↔ P list)
  merge : ∀ {list : EntryList} {entry : Entry}, entry.IsRead →
    list.hasRange entry.breakpoint = true →
    (P (list.mergeAt entry.breakpoint entry.block) ↔ P list ∧ R list entry)

/-- Compatibility of a list is lost only by merging an entry that the list does not admit. -/
theorem mergeLaw_compatible : MergeLaw Compatible Admits where
  single _ := compatible_single _
  clone := compatible_clone
  push _ hfree := compatible_push_iff.trans (and_iff_left hfree)
  merge _ hrange := compatible_mergeAt_iff hrange

end EntryList

namespace StyleTable

/-- Every list of the table meets the condition. -/
def Every (table : StyleTable) (P : EntryList → Prop) : Prop :=
  ∀ (path : Path) (list : EntryList), table.get? path = some list → P list

/-- Any two entries of every list are compatible. -/
def AllCompatible (table : StyleTable) : Prop :=
  ∀ (path : Path) (list : EntryList), table.get? path = some list → list.Compatible

/-- Placing the node merges the entry into the list of its path, which was copied from a base. -/
def Merges (table : StyleTable) (visit : Visit) (list : EntryList) (entry : Entry) : Prop :=
  ∃ prepared, table.arrival visit = .ok (prepared, entry) ∧
    prepared.filing visit.path entry = .ok .merged ∧ prepared.get? visit.path = some list

/-- The empty table has no list to meet a condition. -/
theorem every_empty (P : EntryList → Prop) : empty.Every P := by
  intro path list found
  simp at found

/-- The empty table has no conflicts. -/
theorem allCompatible_empty : AllCompatible empty :=
  every_empty _

/-- An entry that comes to be filed has the block that the text of its node is. -/
theorem isRead_of_arrival {table prepared : StyleTable} {visit : Visit} {entry : Entry}
    (h : table.arrival visit = .ok (prepared, entry)) : entry.IsRead := by
  obtain ⟨_, block, _, _, hblock, rfl⟩ := arrival_eq_ok_iff.1 h
  exact ⟨visit.declarations, (readBlock_eq_ok_iff.1 hblock).1⟩

section MergeLaw

variable {P : EntryList → Prop} {R : EntryList → Entry → Prop} {table : StyleTable}

/-- Copies meet the condition when the lists they were copied from do. -/
theorem every_cloneBase_iff (law : EntryList.MergeLaw P R) {cloned : StyleTable}
    {base target : Fragment} {source : Option Location}
    (hclone : table.cloneBase base target source = .ok cloned) :
    cloned.Every P ↔ table.Every P := by
  constructor
  · intro h path list found
    exact h path list (get?_cloneBase_of_get? hclone found)
  · intro h path list found
    rcases get?_cloneBase_cases hclone found with hold | ⟨_, origin, old, hold, _, _, rfl⟩
    · exact h path list hold
    · exact law.clone.2 (h origin old hold)

/-- A condition that only a merge can break holds of the lists before a visit is prepared exactly
when it holds of them afterwards. -/
theorem every_prepared_iff (law : EntryList.MergeLaw P R) {prepared : StyleTable} {visit : Visit}
    (h : table.Prepared visit prepared) : prepared.Every P ↔ table.Every P := by
  cases h with
  | plain => exact Iff.rfl
  | copied _ _ hclone => exact every_cloneBase_iff law hclone

/-- A change of one list makes all lists meet the condition exactly when all others do and it
makes that list meet it. -/
theorem every_modify_iff {path : Path} {list : EntryList} (found : table.get? path = some list)
    (change : EntryList → EntryList) {Q : Prop} (hchange : P (change list) ↔ P list ∧ Q) :
    (table.modify path change).Every P ↔ table.Every P ∧ Q := by
  have changed : (table.modify path change).get? path = some (change list) := by
    rw [get?_modify, if_pos rfl, found, Option.map_some]
  constructor
  · intro h
    obtain ⟨hlist, hq⟩ := hchange.1 (h path _ changed)
    refine ⟨fun other kept hother => ?_, hq⟩
    by_cases heq : other = path
    · rw [heq, found] at hother
      cases hother
      exact hlist
    · exact h other kept (by rw [get?_modify, if_neg heq, hother])
  · rintro ⟨h, hq⟩ other kept hother
    by_cases heq : other = path
    · rw [heq, changed] at hother
      cases hother
      exact hchange.2 ⟨h path list found, hq⟩
    · rw [get?_modify, if_neg heq] at hother
      exact h other kept hother

/-- Filing an entry keeps the condition unless it is merged into a list that it is not related
to. -/
theorem every_file_iff (law : EntryList.MergeLaw P R) {path : Path} {entry : Entry}
    (hread : entry.IsRead) {filing : Filing} (hfiling : table.filing path entry = .ok filing) :
    (table.file path entry filing).Every P ↔
      table.Every P ∧ (filing = .merged → ∀ list, table.get? path = some list → R list entry) := by
  cases filing with
  | opened =>
    have absent : table.get? path = none := filing_eq_ok_iff.1 hfiling
    simp only [reduceCtorEq, false_imp_iff, and_true]
    constructor
    · intro h other list found
      refine h other list ?_
      rw [get?_file, if_neg, found]
      rintro rfl
      simp [absent] at found
    · intro h other list found
      rw [get?_file] at found
      by_cases hother : other = path
      · rw [if_pos hother] at found
        cases found
        exact law.single hread
      · rw [if_neg hother] at found
        exact h other list found
  | merged =>
    obtain ⟨list, found, _, hrange⟩ := filing_eq_ok_iff.1 hfiling
    simp only [found, Option.some.injEq, forall_eq', true_imp_iff]
    exact every_modify_iff found _ (law.merge hread hrange)
  | appended =>
    obtain ⟨list, found, _, hfree⟩ := filing_eq_ok_iff.1 hfiling
    have hpush : P (list.push entry) ↔ P list ∧ True := by
      rw [and_true]
      exact law.push hread fun existing hmem => Entry.conflict?_eq_none_iff.1 (hfree existing hmem)
    simp only [reduceCtorEq, false_imp_iff]
    exact every_modify_iff found _ hpush

/-- Placing a node keeps the condition unless it merges an entry into a list that it is not
related to. -/
theorem every_place_iff (law : EntryList.MergeLaw P R) {visit : Visit} :
    (table.place visit).table.Every P ↔
      table.Every P ∧ ∀ (list : EntryList) (entry : Entry),
        table.Merges visit list entry → R list entry := by
  cases harrival : table.arrival visit with
  | error error =>
    have never (list : EntryList) (entry : Entry) : ¬table.Merges visit list entry := by
      rintro ⟨prepared, harrived, _⟩
      simp [harrival] at harrived
    obtain ⟨left, hplace, hleft⟩ := place_of_arrival_error harrival
    have kept : left.Every P ↔ table.Every P := by
      rcases hleft with rfl | hprepared
      · exact Iff.rfl
      · exact every_prepared_iff law hprepared
    simp only [hplace, kept, never, false_imp_iff, implies_true, and_true]
  | ok arrived =>
    obtain ⟨prepared, entry⟩ := arrived
    have merges (list : EntryList) (other : Entry) :
        table.Merges visit list other ↔ other = entry ∧
          prepared.filing visit.path entry = .ok .merged ∧
          prepared.get? visit.path = some list := by
      simp only [Merges, harrival, Except.ok.injEq, Prod.mk.injEq]
      constructor
      · rintro ⟨_, ⟨rfl, rfl⟩, hmerged⟩
        exact ⟨rfl, hmerged⟩
      · rintro ⟨rfl, hmerged⟩
        exact ⟨prepared, ⟨rfl, rfl⟩, hmerged⟩
    have kept := every_prepared_iff law (prepared_of_arrival harrival)
    rw [place_of_arrival harrival]
    cases hfiling : prepared.filing visit.path entry with
    | error error => simp [merges, hfiling, kept]
    | ok filing =>
      simp only [every_file_iff law (isRead_of_arrival harrival) hfiling, kept, merges, hfiling,
        Except.ok.injEq]
      refine and_congr_right fun _ => ⟨?_, ?_⟩
      · rintro h list _ ⟨rfl, hmerged, found⟩
        exact h hmerged list found
      · exact fun h hmerged list found => h list entry ⟨rfl, hmerged, found⟩

end MergeLaw

end StyleTable

namespace Progress

/-- Every block that the run merges into a copied list is related to the list at that time. -/
def AllMerges (R : EntryList → Entry → Prop) (progress : Progress) (visits : List Visit) : Prop :=
  ∀ (before : List Visit) (visit : Visit) (after : List Visit),
    visits = before ++ visit :: after → (progress.run before).failure = none →
    ∀ (list : EntryList) (entry : Entry),
      (progress.run before).table.Merges visit list entry → R list entry

/-- Every block that the run merges into a copied list is admitted by the list at that time. -/
def AdmitsMerges (progress : Progress) (visits : List Visit) : Prop :=
  ∀ (before : List Visit) (visit : Visit) (after : List Visit),
    visits = before ++ visit :: after → (progress.run before).failure = none →
    ∀ (list : EntryList) (entry : Entry),
      (progress.run before).table.Merges visit list entry → list.Admits entry

section MergeLaw

variable {P : EntryList → Prop} {R : EntryList → Entry → Prop} {progress : Progress}

/-- A run merges what its first step merges, and then what the other steps merge. -/
theorem allMerges_cons_iff {visit : Visit} {rest : List Visit} :
    progress.AllMerges R (visit :: rest) ↔
      (progress.failure = none → ∀ (list : EntryList) (entry : Entry),
        progress.table.Merges visit list entry → R list entry) ∧
      (progress.step visit).AllMerges R rest := by
  constructor
  · intro h
    refine ⟨h [] visit rest rfl, ?_⟩
    rintro before next after rfl
    exact h (visit :: before) next after rfl
  · rintro ⟨hfirst, hrest⟩ before next after hsplit
    cases before with
    | nil =>
      cases hsplit
      exact hfirst
    | cons first before =>
      rw [List.cons_append, List.cons.injEq] at hsplit
      obtain ⟨rfl, rfl⟩ := hsplit
      exact hrest before next after rfl

/-- After a run all lists meet the condition exactly when they did before and every merge is
into a list that the merged entry is related to. -/
theorem every_run_iff (law : EntryList.MergeLaw P R) {visits : List Visit} :
    (progress.run visits).table.Every P ↔ progress.table.Every P ∧ progress.AllMerges R visits := by
  induction visits generalizing progress with
  | nil => simp [AllMerges]
  | cons visit rest ih =>
    have hstep : (progress.step visit).table.Every P ↔
        progress.table.Every P ∧ (progress.failure = none →
          ∀ (list : EntryList) (entry : Entry),
            progress.table.Merges visit list entry → R list entry) := by
      unfold step
      cases hf : progress.failure with
      | some error => simp
      | none => simpa using StyleTable.every_place_iff law
    show ((progress.step visit).run rest).table.Every P ↔ _
    rw [ih, hstep, allMerges_cons_iff, and_assoc]

end MergeLaw

/-- A run leaves all lists compatible exactly when they were and all merges are admitted. -/
theorem allCompatible_run_iff {progress : Progress} {visits : List Visit} :
    (progress.run visits).table.AllCompatible ↔
      progress.table.AllCompatible ∧ progress.AdmitsMerges visits :=
  every_run_iff EntryList.mergeLaw_compatible

end Progress

/-- After assembling a forest all lists meet the condition exactly when every merge on the way is
into a list that the merged entry is related to. -/
theorem every_assembleForest_iff {P : EntryList → Prop} {R : EntryList → Entry → Prop}
    (law : EntryList.MergeLaw P R) (forest : List Node) :
    (assembleForest forest).table.Every P ↔
      (Progress.start StyleTable.empty).AllMerges R (Node.visitsOfAll none none forest) :=
  (Progress.every_run_iff law).trans (and_iff_right (StyleTable.every_empty P))

/-- A compiler holds the assembled table after a compilation, whatever it held before. -/
theorem Compiler.table_compile (compiler : Compiler) (forest : List Node) :
    (compiler.compile forest).2.table = (assembleForest forest).table := by
  simp only [Compiler.compile, Compiler.extend]
  split
  · rfl
  · rfl

/-- After a compilation, the entries of copied lists that hold for a common width share no
property and reset no property of each other exactly when each block that was merged into a
copied list was compatible with all entries of the list but the one it was merged into. -/
theorem Compiler.copied_entries_compatible_iff (compiler : Compiler) (forest : List Node) :
    (∀ (path : Path) (list : EntryList),
      (compiler.compile forest).2.table.get? path = some list → list.cloned = true →
      ∀ (i j : Nat) (left right : Entry), i ≠ j → list.entries[i]? = some left →
        list.entries[j]? = some right → left.breakpoint.overlaps right.breakpoint = true →
        left.block.Compatible right.block) ↔
      (Progress.start StyleTable.empty).AdmitsMerges (Node.visitsOfAll none none forest) := by
  have own : (assembleForest forest).table.OwnCompatible :=
    assembleForest_induction StyleTable.ownCompatible_empty StyleTable.OwnCompatible.place forest
  have assembled : (assembleForest forest).table.AllCompatible ↔
      (Progress.start StyleTable.empty).AdmitsMerges (Node.visitsOfAll none none forest) := by
    rw [assembleForest, Progress.allCompatible_run_iff]
    exact and_iff_right StyleTable.allCompatible_empty
  rw [compiler.table_compile, ← assembled]
  constructor
  · intro h path list found
    cases hcloned : list.cloned with
    | true => exact EntryList.compatible_iff_getElem?.2 (h path list found hcloned)
    | false => exact own path list found hcloned
  · intro h path list found _
    exact EntryList.compatible_iff_getElem?.1 (h path list found)

/-- A block of a subclass that is merged for wide viewports sets a property that the base sets
for all of them. Compiling the three nodes succeeds, and the two entries overlap. -/
theorem Compiler.copied_entries_share_property :
    let base := Node.mk "button" { className := "primary" } "padding: 4px;" []
    let wide := Node.mk "button" { className := "primary", minWidth := some 600 } "color: white;" []
    let sub :=
      Node.mk "button" { className := "primary.large", minWidth := some 600 } "padding: 8px;" []
    let path := Path.root { element := "button", className := "primary.large" }
    let compiled := Compiler.new.compile [base, wide, sub]
    compiled.1.isOk = true ∧
      ∃ (list : EntryList) (left right : Entry), compiled.2.table.get? path = some list ∧
        list.cloned = true ∧ list.entries[0]? = some left ∧ list.entries[1]? = some right ∧
        left.breakpoint.overlaps right.breakpoint = true ∧
        ¬left.block.Compatible right.block := by
  refine ⟨by decide +kernel,
    ⟨[⟨⟨[{ property := "padding", value := "4px" }]⟩, ⟨0, none⟩, none⟩,
      ⟨⟨[{ property := "color", value := "white" }, { property := "padding", value := "8px" }]⟩,
        ⟨600, none⟩, none⟩], true⟩,
    _, _, by decide +kernel, rfl, rfl, rfl, by decide, by decide +kernel⟩

end StyleForest
