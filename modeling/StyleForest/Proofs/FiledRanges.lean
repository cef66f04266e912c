import StyleForest.Proofs.FiledBlocks

/-!
# The ranges of a table

Attributes are checked before a node is filed, so a node declares no range whose lower end is above
its upper end. A range is handed down to the nodes below only after the node that declares it has
passed the check, because a failure ends the walk. So no entry of a reachable table is for an
inverted range (`StyleTable.Reachable.rangesOrdered`).
-/

namespace StyleForest

/-- The lower end of the range is not above its upper end. -/
def Breakpoint.Ordered (range : Breakpoint) : Prop :=
  ∀ max, range.max = some max → range.min ≤ max

/-- The range of all widths is in order. -/
theorem Breakpoint.ordered_unbounded : unbounded.Ordered := nofun

/-- Attributes that pass the check declare no inverted range. -/
theorem Attributes.ordered_of_validate {attributes : Attributes}
    (h : attributes.validate = .ok ()) {range : Breakpoint}
    (hrange : attributes.breakpoint? = some range) : range.Ordered := by
  obtain ⟨className, min, max, pseudo, source⟩ := attributes
  simp only [breakpoint?, Option.ite_none_right_eq_some, Option.some.injEq] at hrange
  obtain ⟨_, rfl⟩ := hrange
  intro upper hupper
  obtain rfl : max = some upper := hupper
  cases min with
  | none => exact UInt32.le_iff_toNat_le.2 (Nat.zero_le _)
  | some min =>
    cases hempty : pseudo.filter fun suffix => !namesPseudo suffix with
    | some suffix => simp [validate, hempty] at h
    | none =>
      have hle : min ≤ upper := by simpa [validate, hempty] using h
      exact hle

/-- The range of a node that passes its checks in a scope that is not inverted. -/
theorem Visit.ordered_of_placement {visit : Visit} {placement : Placement}
    (hscope : ∀ scope, visit.scope = some scope → scope.breakpoint.Ordered)
    (h : visit.placement = .ok placement) : placement.range.Ordered := by
  obtain ⟨hvalid, hrange, _⟩ := placement_eq_ok_iff.1 h
  rw [(breakpoint_eq_ok_iff.1 hrange).2]
  cases hown : visit.attributes.breakpoint? with
  | some own => exact Attributes.ordered_of_validate hvalid hown
  | none =>
    cases hinherited : visit.scope with
    | some scope => exact hscope scope hinherited
    | none => exact Breakpoint.ordered_unbounded

namespace StyleTable

/-- No entry of the table is for an inverted range. -/
def RangesOrdered (table : StyleTable) : Prop :=
  ∀ (path : Path) (list : EntryList), table.get? path = some list →
    ∀ entry ∈ list.entries, entry.breakpoint.Ordered

/-- The empty table has its ranges in order. -/
theorem rangesOrdered_empty : RangesOrdered empty := by
  intro path list found
  simp at found

variable {table : StyleTable} {visit : Visit}

/-- Copies have the ranges of their originals. -/
theorem RangesOrdered.prepared (h : table.RangesOrdered) {prepared : StyleTable}
    (hprepared : table.Prepared visit prepared) : prepared.RangesOrdered := by
  cases hprepared with
  | plain => exact h
  | copied _ _ hclone =>
    intro path list found
    rcases get?_cloneBase_cases hclone found with hold | ⟨_, origin, old, hold, _, _, rfl⟩
    · exact h path list hold
    · exact h origin old hold

/-- Filing adds the range of the entry that is filed, and a merge changes no range. -/
theorem RangesOrdered.file (h : table.RangesOrdered) {entry : Entry}
    (hentry : entry.breakpoint.Ordered) (path : Path) (filing : Filing) :
    (table.file path entry filing).RangesOrdered := by
  intro other list found present hpresent
  cases filedFrom_of_file found hpresent with
  | kept hold hkept => exact h other _ hold present hkept
  | filed => exact hentry
  | @merged _ target hold htarget => exact h path _ hold target htarget

/-- Placing a node in a scope that is not inverted files no inverted range. -/
theorem RangesOrdered.place (h : table.RangesOrdered)
    (hscope : ∀ scope, visit.scope = some scope → scope.breakpoint.Ordered) :
    (table.place visit).table.RangesOrdered := by
  have houtcome := outcome_place table visit
  generalize table.place visit = progress at houtcome ⊢
  cases houtcome with
  | refused error => exact h
  | stopped error hprepared => exact h.prepared hprepared
  | filed harrival _ =>
    have hprepared := h.prepared (prepared_of_arrival harrival)
    obtain ⟨placement, block, hplacement, _, _, rfl⟩ := arrival_eq_ok_iff.1 harrival
    exact hprepared.file (Visit.ordered_of_placement hscope hplacement) _ _

/-- A node that is placed without failure hands down no inverted range. -/
theorem ordered_innerScope (hscope : ∀ scope, visit.scope = some scope → scope.breakpoint.Ordered)
    (hplaced : (table.place visit).failure = none) :
    ∀ scope, visit.innerScope = some scope → scope.breakpoint.Ordered := by
  obtain ⟨_, _, _, harrival, _⟩ := exists_filed_of_place hplaced
  obtain ⟨_, _, hplacement, _⟩ := arrival_eq_ok_iff.1 harrival
  have hvalid := (Visit.placement_eq_ok_iff.1 hplacement).1
  unfold Visit.innerScope
  split
  · next own hown =>
    rintro scope ⟨⟩
    exact Attributes.ordered_of_validate hvalid hown
  · exact hscope

end StyleTable

namespace Progress

mutual

/-- A walk of a tree in a scope that is not inverted files no inverted range. -/
theorem rangesOrdered_run_visits {parent : Option Path} {scope : Option Scope}
    (hscope : ∀ outer, scope = some outer → outer.breakpoint.Ordered) {progress : Progress}
    (h : progress.table.RangesOrdered) :
    ∀ node : Node, (progress.run (node.visits parent scope)).table.RangesOrdered
  | .mk element attributes declarations children => by
    let visit : Visit := { parent, scope, element, attributes, declarations }
    cases hfailure : progress.failure with
    | some error =>
      rw [run_of_failure (by rw [hfailure]; rfl)]
      exact h
    | none =>
      have hplace : (progress.table.place visit).table.RangesOrdered := h.place hscope
      rw [Node.visits, run_cons_of_running hfailure]
      cases hplaced : (progress.table.place visit).failure with
      | some error =>
        rw [run_of_failure (by rw [hplaced]; rfl)]
        exact hplace
      | none =>
        exact rangesOrdered_run_visitsOfAll (StyleTable.ordered_innerScope hscope hplaced) hplace
          children

/-- Placing nodes keeps the ranges in order when the scope that they stand in is. -/
theorem rangesOrdered_run_visitsOfAll {parent : Option Path} {scope : Option Scope}
    (hscope : ∀ outer, scope = some outer → outer.breakpoint.Ordered) {progress : Progress}
    (h : progress.table.RangesOrdered) :
    ∀ nodes : List Node, (progress.run (Node.visitsOfAll parent scope nodes)).table.RangesOrdered
  | [] => h
  | node :: rest => by
    rw [Node.visitsOfAll, run_append]
    exact rangesOrdered_run_visitsOfAll hscope (rangesOrdered_run_visits hscope h node) rest

end

end Progress

/-- No entry of a reachable table is for an inverted range. -/
theorem StyleTable.Reachable.rangesOrdered {table : StyleTable} (h : Reachable table) :
    table.RangesOrdered := by
  induction h with
  | empty => exact rangesOrdered_empty
  | assemble node _ ih =>
    exact Progress.rangesOrdered_run_visits (fun _ hnone => by cases hnone) ih node

end StyleForest
