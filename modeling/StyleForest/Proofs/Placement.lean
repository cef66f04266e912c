import StyleForest.Forest.Assembly

/-!
# What placing a node does

Placing a node copies the base it asks for, reads its declarations and files them. The outcomes
are listed once, in `StyleTable.outcome_place`, so that a property of tables is shown to be kept
by copying and by filing and then holds after every run and of every reachable table.
-/

namespace StyleForest

namespace StyleTable

/-- The table and the entry with which a node comes to be filed: its checks are passed, its base
is copied and its declarations are read. -/
def arrival (table : StyleTable) (visit : Visit) : Except StyleError (StyleTable × Entry) := do
  let placement ← visit.placement
  let prepared ← table.prepare visit placement
  let block ← readBlock visit.path visit.element visit.declarations visit.source
  return (prepared, { block, breakpoint := placement.range, source := visit.source })

/-- The tables in which a node is filed: the table itself if the node is no subclass, or the table
with the base copied if the node is a subclass at the top of a tree. -/
inductive Prepared (table : StyleTable) (visit : Visit) : StyleTable → Prop
  | plain (hplain : visit.fragment.subclass? = none) : Prepared table visit table
  | copied {base : Fragment} {cloned : StyleTable} (htop : visit.parent = none)
      (hbase : visit.fragment.base? = some base)
      (hclone : table.cloneBase base visit.fragment visit.source = .ok cloned) :
      Prepared table visit cloned

/-- What can become of a table when a node is placed in it. -/
inductive Outcome (table : StyleTable) (visit : Visit) : Progress → Prop
  /-- The node is refused and the table stays as it is. -/
  | refused (error : StyleError) : Outcome table visit ⟨table, some error⟩
  /-- The node is refused where it was to be filed. -/
  | stopped {prepared : StyleTable} (error : StyleError)
      (hprepared : table.Prepared visit prepared) : Outcome table visit ⟨prepared, some error⟩
  /-- The node is filed. -/
  | filed {prepared : StyleTable} {entry : Entry} {filing : Filing}
      (harrival : table.arrival visit = .ok (prepared, entry))
      (hfiling : prepared.filing visit.path entry = .ok filing) :
      Outcome table visit ⟨prepared.file visit.path entry filing, none⟩

/-- A node that is accepted is no subclass and has no base to copy, or it stands at the top of a
tree and has its base to copy. -/
theorem base_of_placement {visit : Visit} {placement : Placement}
    (h : visit.placement = .ok placement) :
    visit.fragment.subclass? = none ∧ placement.base = none ∨
      visit.parent = none ∧ ∃ base, visit.fragment.base? = some base ∧
        placement.base = some base := by
  rcases subclassBase_eq_ok_iff.1 (Visit.placement_eq_ok_iff.1 h).2.2 with
    hplain | ⟨htop, hcopied, halves, hsub, _⟩
  · exact Or.inl hplain
  · have hbase : visit.fragment.base? = some { element := visit.element, className := halves.1 } :=
      by rw [Fragment.base?, hsub, Option.map_some]; rfl
    exact Or.inr ⟨htop, _, hbase, hcopied.trans hbase⟩

/-- What is prepared for a node that is accepted. -/
theorem prepared_of_placement {table prepared : StyleTable} {visit : Visit}
    {placement : Placement} (hplacement : visit.placement = .ok placement)
    (h : table.prepare visit placement = .ok prepared) : table.Prepared visit prepared := by
  unfold prepare at h
  rcases base_of_placement hplacement with ⟨hplain, hnone⟩ | ⟨htop, base, hfound, hbase⟩
  · rw [hnone] at h
    cases h
    exact .plain hplain
  · rw [hbase] at h
    exact .copied htop hfound h

/-- A visit arrives when it can be placed, prepared and read. -/
theorem arrival_eq_ok_iff {table prepared : StyleTable} {visit : Visit} {entry : Entry} :
    table.arrival visit = .ok (prepared, entry) ↔
      ∃ placement block, visit.placement = .ok placement ∧
        table.prepare visit placement = .ok prepared ∧
        readBlock visit.path visit.element visit.declarations visit.source = .ok block ∧
        entry = { block, breakpoint := placement.range, source := visit.source } := by
  unfold arrival
  cases hplacement : visit.placement with
  | error error => simp [bind, Except.bind]
  | ok placement =>
    cases hprepare : table.prepare visit placement with
    | error error => simp [bind, Except.bind, hprepare]
    | ok ready =>
      cases readBlock visit.path visit.element visit.declarations visit.source with
      | error error => simp [bind, Except.bind, hprepare]
      | ok block => simp [bind, Except.bind, pure, Except.pure, hprepare, eq_comm]

/-- A visit that arrives has been prepared. -/
theorem prepared_of_arrival {table prepared : StyleTable} {visit : Visit} {entry : Entry}
    (h : table.arrival visit = .ok (prepared, entry)) : table.Prepared visit prepared := by
  obtain ⟨placement, _, hplacement, hprepare, _, _⟩ := arrival_eq_ok_iff.1 h
  exact prepared_of_placement hplacement hprepare

/-- A node that has come to be filed is filed as decided, or refused with the table prepared. -/
theorem place_of_arrival {table prepared : StyleTable} {visit : Visit} {entry : Entry}
    (h : table.arrival visit = .ok (prepared, entry)) :
    table.place visit =
      match prepared.filing visit.path entry with
      | .ok filing => ⟨prepared.file visit.path entry filing, none⟩
      | .error error => ⟨prepared, some error⟩ := by
  obtain ⟨placement, block, hplacement, hprepare, hblock, rfl⟩ := arrival_eq_ok_iff.1 h
  simp only [place, hplacement, hprepare, register, hblock, bind, Except.bind]
  cases prepared.filing visit.path ⟨block, placement.range, visit.source⟩ with
  | error error => rfl
  | ok filing => rfl

/-- A node that does not come to be filed is refused for that reason. -/
theorem place_of_arrival_error {table : StyleTable} {visit : Visit} {error : StyleError}
    (h : table.arrival visit = .error error) :
    ∃ left, table.place visit = ⟨left, some error⟩ ∧
      (left = table ∨ table.Prepared visit left) := by
  unfold arrival at h
  unfold place
  cases hplacement : visit.placement with
  | error reason =>
    simp only [hplacement, bind, Except.bind, Except.error.injEq] at h
    exact ⟨table, by rw [h], Or.inl rfl⟩
  | ok placement =>
    cases hprepare : table.prepare visit placement with
    | error reason =>
      simp only [hplacement, hprepare, bind, Except.bind, Except.error.injEq] at h
      exact ⟨table, by simp only [hprepare, h], Or.inl rfl⟩
    | ok prepared =>
      cases hblock : readBlock visit.path visit.element visit.declarations visit.source with
      | error reason =>
        simp only [hplacement, hprepare, hblock, bind, Except.bind, Except.error.injEq] at h
        refine ⟨prepared, ?_, Or.inr (prepared_of_placement hplacement hprepare)⟩
        simp only [hprepare, register, hblock, bind, Except.bind, h]
      | ok block => simp [hplacement, hprepare, hblock, bind, Except.bind, pure, Except.pure] at h

/-- Placing a node succeeds when it comes to be filed and its entry is not refused. -/
theorem place_eq_filed_iff {table after : StyleTable} {visit : Visit} :
    table.place visit = ⟨after, none⟩ ↔
      ∃ prepared entry filing, table.arrival visit = .ok (prepared, entry) ∧
        prepared.filing visit.path entry = .ok filing ∧
        after = prepared.file visit.path entry filing := by
  constructor
  · intro hplace
    cases harrival : table.arrival visit with
    | error error =>
      obtain ⟨left, hfailed, _⟩ := place_of_arrival_error harrival
      simp [hfailed] at hplace
    | ok arrived =>
      obtain ⟨prepared, entry⟩ := arrived
      rw [place_of_arrival harrival] at hplace
      cases hfiling : prepared.filing visit.path entry with
      | error error => simp [hfiling] at hplace
      | ok filing =>
        rw [hfiling] at hplace
        cases hplace
        exact ⟨prepared, entry, filing, rfl, hfiling, rfl⟩
  · rintro ⟨prepared, entry, filing, harrival, hfiling, rfl⟩
    rw [place_of_arrival harrival, hfiling]

/-- A node that is placed without failure has been filed. -/
theorem exists_filed_of_place {table : StyleTable} {visit : Visit}
    (h : (table.place visit).failure = none) :
    ∃ prepared entry filing, table.arrival visit = .ok (prepared, entry) ∧
      prepared.filing visit.path entry = .ok filing ∧
      (table.place visit).table = prepared.file visit.path entry filing := by
  have hplace : table.place visit = ⟨(table.place visit).table, none⟩ := by rw [← h]
  exact place_eq_filed_iff.1 hplace

/-- Every placing of a node has one of the outcomes. -/
theorem outcome_place (table : StyleTable) (visit : Visit) :
    Outcome table visit (table.place visit) := by
  cases harrival : table.arrival visit with
  | error error =>
    obtain ⟨left, hplace, rfl | hprepared⟩ := place_of_arrival_error harrival
    · rw [hplace]
      exact .refused error
    · rw [hplace]
      exact .stopped error hprepared
  | ok arrived =>
    obtain ⟨prepared, entry⟩ := arrived
    rw [place_of_arrival harrival]
    cases hfiling : prepared.filing visit.path entry with
    | ok filing => exact .filed harrival hfiling
    | error error => exact .stopped error (prepared_of_arrival harrival)

section Invariants

variable {P : StyleTable → Prop}

/-- What copying and filing keep, placing a node keeps. -/
theorem place_induction
    (hclone : ∀ {table cloned : StyleTable} {base target : Fragment} {source : Option Location},
      table.cloneBase base target source = .ok cloned → P table → P cloned)
    (hfile : ∀ {table : StyleTable} {path : Path} {entry : Entry} {filing : Filing},
      table.filing path entry = .ok filing → P table → P (table.file path entry filing))
    (table : StyleTable) (visit : Visit) (h : P table) : P (table.place visit).table := by
  have prepared_kept {prepared : StyleTable} (hprepared : table.Prepared visit prepared) :
      P prepared := by
    cases hprepared with
    | plain => exact h
    | copied _ _ hcopied => exact hclone hcopied h
  have houtcome := outcome_place table visit
  generalize table.place visit = progress at houtcome ⊢
  cases houtcome with
  | refused error => exact h
  | stopped error hprepared => exact prepared_kept hprepared
  | filed harrival hfiling => exact hfile hfiling (prepared_kept (prepared_of_arrival harrival))

end Invariants

end StyleTable

namespace Progress

variable {P : StyleTable → Prop}

/-- What placing keeps is kept by a step, which may also do nothing. -/
theorem table_step_induction {visit : Visit}
    (hplace : ∀ table, P table → P (table.place visit).table) {progress : Progress}
    (h : P progress.table) : P (progress.step visit).table := by
  unfold step
  split
  · exact h
  · exact hplace _ h

/-- What placing each of the nodes keeps, a run over them keeps. -/
theorem table_run_induction {visits : List Visit}
    (hplace : ∀ table, ∀ visit ∈ visits, P table → P (table.place visit).table)
    {progress : Progress} (h : P progress.table) : P (progress.run visits).table := by
  induction visits generalizing progress with
  | nil => exact h
  | cons visit rest ih =>
    exact ih (fun table other hmem => hplace table other (List.mem_cons_of_mem visit hmem))
      (table_step_induction (fun table => hplace table visit List.mem_cons_self) h)

end Progress

namespace StyleTable

/-- The tables that assembling trees one after the other leads to. An assembly that fails ends
in a table too, and the next one goes on from there. -/
inductive Reachable : StyleTable → Prop
  | empty : Reachable empty
  | assemble {table : StyleTable} (node : Node) (h : Reachable table) :
      Reachable (table.assemble node none none).table

/-- What holds of the empty table and is kept by placing a node holds of all reachable tables. -/
theorem Reachable.induction {P : StyleTable → Prop} (hempty : P StyleTable.empty)
    (hplace : ∀ table visit, P table → P (table.place visit).table) {table : StyleTable}
    (h : Reachable table) : P table := by
  induction h with
  | empty => exact hempty
  | assemble node _ ih =>
    exact Progress.table_run_induction (fun table visit _ => hplace table visit) ih

end StyleTable

/-- What holds of the empty table and is kept by placing a node holds of every assembled table. -/
theorem assembleForest_induction {P : StyleTable → Prop} (hempty : P StyleTable.empty)
    (hplace : ∀ table visit, P table → P (table.place visit).table) (forest : List Node) :
    P (assembleForest forest).table :=
  Progress.table_run_induction (fun table visit _ => hplace table visit) hempty

end StyleForest
