import StyleForest.Proofs.Placement

/-!
# The way down a tree

A walk meets the parent of a node before the node, and it stops at the first failure; so when a
node is placed, the path of its parent has a row already (`table_run_induction_of_parents`). The
paths of a table come about in two ways: a node below another one, which is then no subclass,
extends the path of its parent, and a subclass at the top moves the paths below its base.
-/

namespace StyleForest

/-- Every visit has no parent, a known one, or the path of a visit before it. -/
def ParentsFirst (known : Path → Prop) : List Visit → Prop
  | [] => True
  | visit :: rest =>
    (∀ parent, visit.parent = some parent → known parent) ∧
      ParentsFirst (fun path => known path ∨ path = visit.path) rest

/-- Parents that are known stay so when more is known. -/
theorem ParentsFirst.mono {known more : Path → Prop} {visits : List Visit}
    (h : ParentsFirst known visits) (hmore : ∀ path, known path → more path) :
    ParentsFirst more visits := by
  induction visits generalizing known more with
  | nil => trivial
  | cons visit rest ih =>
    obtain ⟨hfirst, hrest⟩ := h
    exact ⟨fun parent hparent => hmore parent (hfirst parent hparent),
      ih hrest fun path => Or.imp_left (hmore path)⟩

/-- Visits after others still come after their parents. -/
theorem ParentsFirst.append {known : Path → Prop} {first second : List Visit}
    (hfirst : ParentsFirst known first) (hsecond : ParentsFirst known second) :
    ParentsFirst known (first ++ second) := by
  induction first generalizing known with
  | nil => exact hsecond
  | cons visit rest ih =>
    exact ⟨hfirst.1, ih hfirst.2 (hsecond.mono fun path => Or.inl)⟩

mutual

/-- A walk of a tree meets parents first. -/
theorem parentsFirst_visits {known : Path → Prop} {parent : Option Path} {scope : Option Scope}
    (h : ∀ path, parent = some path → known path) :
    ∀ node : Node, ParentsFirst known (node.visits parent scope)
  | .mk element attributes declarations children => by
    refine ⟨h, parentsFirst_visitsOfAll ?_ children⟩
    rintro path ⟨⟩
    exact Or.inr rfl

/-- The visits of nodes come after their parents when the one above them is known. -/
theorem parentsFirst_visitsOfAll {known : Path → Prop} {parent : Option Path}
    {scope : Option Scope} (h : ∀ path, parent = some path → known path) :
    ∀ nodes : List Node, ParentsFirst known (Node.visitsOfAll parent scope nodes)
  | [] => trivial
  | node :: rest => (parentsFirst_visits h node).append (parentsFirst_visitsOfAll h rest)

end

mutual

/-- Every node below a path has a parent. -/
theorem isSome_parent_of_mem_visits {path : Path} {scope : Option Scope} {visit : Visit} :
    ∀ node : Node, visit ∈ node.visits (some path) scope → visit.parent.isSome = true
  | .mk element attributes declarations children => by
    rw [Node.visits, List.mem_cons]
    rintro (rfl | hmem)
    · rfl
    · exact isSome_parent_of_mem_visitsOfAll children hmem

/-- Every visit below a node has a parent. -/
theorem isSome_parent_of_mem_visitsOfAll {path : Path} {scope : Option Scope} {visit : Visit} :
    ∀ nodes : List Node, visit ∈ Node.visitsOfAll (some path) scope nodes →
      visit.parent.isSome = true
  | [] => by simp [Node.visitsOfAll]
  | node :: rest => by
    rw [Node.visitsOfAll, List.mem_append]
    rintro (hmem | hmem)
    · exact isSome_parent_of_mem_visits node hmem
    · exact isSome_parent_of_mem_visitsOfAll rest hmem

end

/-- A walk of a tree visits its root and then nodes that have a parent. -/
theorem visits_eq_cons (node : Node) :
    ∃ visit below, node.visits none none = visit :: below ∧ visit.fragment = node.fragment ∧
      visit.source = node.attributes.source ∧ ∀ other ∈ below, other.parent.isSome = true := by
  cases node with
  | mk element attributes declarations children =>
    exact ⟨_, _, rfl, rfl, rfl, fun other => isSome_parent_of_mem_visitsOfAll children⟩

namespace StyleTable

/-- Copying keeps the paths that are filed. -/
theorem contains_of_cloneBase {table cloned : StyleTable} {base target : Fragment}
    {source : Option Location} (h : table.cloneBase base target source = .ok cloned)
    {path : Path} (hpath : table.contains path = true) : cloned.contains path = true := by
  rw [contains_eq_isSome_get?] at hpath
  obtain ⟨list, found⟩ := Option.isSome_iff_exists.1 hpath
  exact contains_of_get? (get?_cloneBase_of_get? h found)

/-- A path that copying adds is a path below the base, moved below the target. -/
theorem exists_origin_of_cloneBase {table cloned : StyleTable} {base target : Fragment}
    {source : Option Location} (h : table.cloneBase base target source = .ok cloned)
    {path : Path} (hpath : cloned.contains path = true) :
    table.contains path = true ∨ ∃ origin, table.contains origin = true ∧
      origin.startsWith base = true ∧ path = origin.rebase target := by
  rw [contains_eq_isSome_get?] at hpath
  obtain ⟨list, found⟩ := Option.isSome_iff_exists.1 hpath
  rcases get?_cloneBase_cases h found with hold | ⟨_, origin, old, hold, hstart, hmoved, _⟩
  · exact Or.inl (contains_of_get? hold)
  · exact Or.inr ⟨origin, contains_of_get? hold, hstart, hmoved⟩

/-- Filing an entry adds its path and no other. -/
theorem contains_file_iff {table : StyleTable} {path other : Path} {entry : Entry}
    {filing : Filing} (h : table.filing path entry = .ok filing) :
    (table.file path entry filing).contains other = true ↔
      other = path ∨ table.contains other = true := by
  rw [contains_eq_isSome_get?, contains_eq_isSome_get?, get?_file]
  by_cases hother : other = path
  · cases filing with
    | opened => simp [hother]
    | merged =>
      obtain ⟨list, found, _⟩ := filing_eq_ok_iff.1 h
      simp [hother, found]
    | appended =>
      obtain ⟨list, found, _⟩ := filing_eq_ok_iff.1 h
      simp [hother, found]
  · simp [hother]

/-- Placing a node keeps the paths that are filed. -/
theorem contains_of_place {table : StyleTable} {path : Path} (h : table.contains path = true)
    (visit : Visit) : (table.place visit).table.contains path = true :=
  place_induction (P := fun table => table.contains path = true)
    (fun hclone hold => contains_of_cloneBase hclone hold)
    (fun hfiling hold => (contains_file_iff hfiling).2 (Or.inr hold)) table visit h

/-- A node that is placed without failure has its path filed. -/
theorem contains_path_of_place {table : StyleTable} {visit : Visit}
    (h : (table.place visit).failure = none) :
    (table.place visit).table.contains visit.path = true := by
  obtain ⟨prepared, entry, filing, _, hfiling, hfiled⟩ := exists_filed_of_place h
  rw [hfiled]
  exact (contains_file_iff hfiling).2 (Or.inl rfl)

/-- A subclass that is placed without failure is filed in the table with its base copied. -/
theorem exists_cloned_of_place {table : StyleTable} {visit : Visit} {base : Fragment}
    (hbase : visit.fragment.base? = some base) (h : (table.place visit).failure = none) :
    ∃ cloned entry filing, table.cloneBase base visit.fragment visit.source = .ok cloned ∧
      (table.place visit).table = cloned.file visit.path entry filing := by
  obtain ⟨cloned, entry, filing, harrival, _, hfiled⟩ := exists_filed_of_place h
  refine ⟨cloned, entry, filing, ?_, hfiled⟩
  cases prepared_of_arrival harrival with
  | plain hplain =>
    rw [Fragment.base?, hplain] at hbase
    cases hbase
  | copied _ hfound hclone =>
    rw [hbase, Option.some.injEq] at hfound
    rw [hfound, hclone]

/-- A node below another one is filed in the table as it is. -/
theorem Prepared.eq_of_parent {table prepared : StyleTable} {visit : Visit}
    (h : table.Prepared visit prepared) (hparent : visit.parent.isSome = true) :
    prepared = table := by
  cases h with
  | plain => rfl
  | copied htop => simp [htop] at hparent

/-- Placing a node below another one changes the list of its own path alone. -/
theorem get?_place_of_parent {table : StyleTable} {visit : Visit}
    (hparent : visit.parent.isSome = true) {path : Path} (hne : path ≠ visit.path) :
    (table.place visit).table.get? path = table.get? path := by
  have houtcome := outcome_place table visit
  generalize table.place visit = progress at houtcome ⊢
  cases houtcome with
  | refused error => rfl
  | stopped error hprepared => rw [hprepared.eq_of_parent hparent]
  | filed harrival hfiling =>
    rw [get?_file, if_neg hne, (prepared_of_arrival harrival).eq_of_parent hparent]

/-- A path that is prepared for a node was filed before or is moved from below the base of the
node. -/
theorem Prepared.contains_cases {table prepared : StyleTable} {visit : Visit}
    (h : table.Prepared visit prepared) {path : Path} (hpath : prepared.contains path = true) :
    table.contains path = true ∨
      ∃ origin base, table.contains origin = true ∧ origin.startsWith base = true ∧
        path = origin.rebase visit.fragment := by
  cases h with
  | plain => exact Or.inl hpath
  | @copied base _ _ _ hclone =>
    refine (exists_origin_of_cloneBase hclone hpath).imp_right ?_
    rintro ⟨origin, hold, hstart, hmoved⟩
    exact ⟨origin, base, hold, hstart, hmoved⟩

/-- A path that placing a node adds is the one of the node, which is then no subclass or stands at
the top, or it is moved from below the base of the node. -/
theorem contains_place_cases {table : StyleTable} {visit : Visit} {path : Path}
    (h : (table.place visit).table.contains path = true) :
    table.contains path = true ∨
      path = visit.path ∧ (visit.parent = none ∨ visit.fragment.subclass? = none) ∨
      ∃ origin base, table.contains origin = true ∧ origin.startsWith base = true ∧
        path = origin.rebase visit.fragment := by
  have houtcome := outcome_place table visit
  generalize table.place visit = progress at houtcome h
  cases houtcome with
  | refused error => exact Or.inl h
  | stopped error hprepared => exact (hprepared.contains_cases h).imp_right Or.inr
  | filed harrival hfiling =>
    have hprepared := prepared_of_arrival harrival
    rcases (contains_file_iff hfiling).1 h with hpath | hmem
    · refine Or.inr (Or.inl ⟨hpath, ?_⟩)
      cases hprepared with
      | plain hplain => exact Or.inr hplain
      | copied htop => exact Or.inl htop
    · exact (hprepared.contains_cases hmem).imp_right Or.inr

end StyleTable

namespace Progress

/-- What placing a node below a path that is filed keeps, a walk keeps. -/
theorem table_run_induction_of_parents {P : StyleTable → Prop} {visits : List Visit}
    (hplace : ∀ table, ∀ visit ∈ visits,
      (∀ parent, visit.parent = some parent → table.contains parent = true) →
      P table → P (table.place visit).table)
    {progress : Progress}
    (horder : ParentsFirst (fun path => progress.table.contains path = true) visits)
    (h : P progress.table) : P (progress.run visits).table := by
  induction visits generalizing progress with
  | nil => exact h
  | cons visit rest ih =>
    obtain ⟨hparent, hrest⟩ := horder
    show P ((progress.step visit).run rest).table
    cases hfailure : (progress.step visit).failure with
    | some error =>
      rw [run_of_failure (by rw [hfailure]; rfl)]
      unfold step
      split
      · exact h
      · exact hplace _ visit List.mem_cons_self hparent h
    | none =>
      have hrunning : progress.failure = none :=
        failure_eq_none_of_run (show (progress.run [visit]).failure = none from hfailure)
      have hstep : progress.step visit = progress.table.place visit := by rw [step, hrunning]
      rw [hstep] at hfailure ⊢
      refine ih (fun table other hmem => hplace table other (List.mem_cons_of_mem visit hmem))
        (hrest.mono fun path => ?_) (hplace _ visit List.mem_cons_self hparent h)
      rintro (hknown | rfl)
      · exact StyleTable.contains_of_place hknown visit
      · exact StyleTable.contains_path_of_place hfailure

/-- A condition on paths that is met by the path of every node, if by that of its parent, and by
every moved path, is met by all paths of a table after a walk. -/
theorem path_run_induction {Q : Path → Prop} {visits : List Visit}
    (hpath : ∀ visit ∈ visits, (∀ parent, visit.parent = some parent →
      Q parent ∧ visit.fragment.subclass? = none) → Q visit.path)
    (hmoved : ∀ visit ∈ visits, ∀ origin base, Q origin → origin.startsWith base = true →
      Q (origin.rebase visit.fragment))
    {progress : Progress}
    (horder : ParentsFirst (fun path => progress.table.contains path = true) visits)
    (h : ∀ path, progress.table.contains path = true → Q path) {path : Path}
    (hfound : (progress.run visits).table.contains path = true) : Q path := by
  refine table_run_induction_of_parents (P := fun table => ∀ path, table.contains path = true →
    Q path) (fun table visit hmem hparent hold path hfound => ?_) horder h path hfound
  rcases StyleTable.contains_place_cases hfound with
    hkept | ⟨rfl, hplain⟩ | ⟨origin, base, horigin, hstart, rfl⟩
  · exact hold path hkept
  · refine hpath visit hmem fun parent hsome => ⟨hold parent (hparent parent hsome), ?_⟩
    rcases hplain with hnone | hplain
    · rw [hsome] at hnone
      cases hnone
    · exact hplain
  · exact hmoved visit hmem origin base (hold origin horigin) hstart

end Progress

end StyleForest
