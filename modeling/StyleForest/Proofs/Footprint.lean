import StyleForest.Proofs.Copying
import StyleForest.Proofs.Simulation

/-!
# What a tree looks at and what it changes

A tree is filed below the fragment of its root, and no other list changes when it is assembled
(`StyleTable.get?_assemble_of_not_startsWith`). What becomes of the lists below that fragment is
decided by these lists alone and, if the root is a subclass, by those below its base
(`StyleTable.AgreeOn.assemble`). So two trees that are filed outside of what the other one looks
at can be assembled in either order (`StyleTable.get?_assemble_comm`).
-/

namespace StyleForest

/-- A path has only one first fragment. -/
theorem Path.eq_of_startsWith {path : Path} {left right : Fragment}
    (hleft : path.startsWith left = true) (hright : path.startsWith right = true) :
    left = right := by
  rw [startsWith, beq_iff_eq] at hleft hright
  exact Option.some.inj (hleft.symm.trans hright)

/-- A path starts with one fragment only. -/
theorem Path.startsWith_eq_false {path : Path} {left right : Fragment}
    (hleft : path.startsWith left = true) (hne : left ≠ right) : path.startsWith right = false :=
  Bool.eq_false_iff.2 fun hright => hne (eq_of_startsWith hleft hright)

private theorem Path.startsWith_root (fragment : Fragment) :
    (Path.root fragment).startsWith fragment = true := by
  simp [startsWith, root]

/-- A path that is extended starts with the same fragment. -/
theorem Path.startsWith_child {path : Path} {root : Fragment} (h : path.startsWith root = true)
    (fragment : Fragment) : (path.child fragment).startsWith root = true := by
  rw [startsWith, beq_iff_eq] at h ⊢
  rw [child, List.head?_append, h, Option.some_or]

/-- A visit without a parent is below its own fragment. -/
theorem Visit.startsWith_fragment {visit : Visit} (hparent : visit.parent = none) :
    visit.path.startsWith visit.fragment = true := by
  rw [path, hparent]
  exact Path.startsWith_root visit.fragment

/-- A visit without a parent is below no other fragment. -/
theorem Visit.fragment_eq_of_startsWith {visit : Visit} (hparent : visit.parent = none)
    {root : Fragment} (hroot : visit.path.startsWith root = true) : visit.fragment = root :=
  Path.eq_of_startsWith (startsWith_fragment hparent) hroot

/-- Only a visit at the top of a tree has a base to copy. -/
theorem Visit.Copies.parent_eq_none {visit : Visit} {base : Fragment} (h : visit.Copies base) :
    visit.parent = none := by
  rcases subclassBase_eq_ok_iff.1 h with ⟨_, hnone⟩ | ⟨htop, _⟩
  · cases hnone
  · exact htop

/-- No visit copies what is filed below its own fragment. -/
theorem Visit.Copies.base_ne {visit : Visit} {base : Fragment} (h : visit.Copies base) :
    base ≠ visit.fragment := by
  rcases subclassBase_eq_ok_iff.1 h with ⟨_, hnone⟩ | ⟨_, hbase, _⟩
  · cases hnone
  · exact Fragment.ne_of_base? hbase.symm

/-- The root of the tree is a subclass that may stand there, and this is its base. -/
def Node.Copies (node : Node) (base : Fragment) : Prop :=
  subclassBase none node.fragment node.attributes.source = .ok (some base)

instance (node : Node) (base : Fragment) : Decidable (node.Copies base) :=
  inferInstanceAs (Decidable (_ = _))

mutual

/-- The nodes below a path start with the first fragment of the path. -/
theorem startsWith_of_mem_visits_below {path : Path} {root : Fragment}
    (hpath : path.startsWith root = true) {scope : Option Scope} {visit : Visit} :
    ∀ node : Node, visit ∈ node.visits (some path) scope → visit.path.startsWith root = true
  | .mk element attributes declarations children => by
    rw [Node.visits, List.mem_cons]
    rintro (rfl | hmem)
    · exact Path.startsWith_child hpath _
    · exact startsWith_of_mem_visitsOfAll_below (Path.startsWith_child hpath _) children hmem

/-- Every visit below a path starts with the fragment that the path starts with. -/
theorem startsWith_of_mem_visitsOfAll_below {path : Path} {root : Fragment}
    (hpath : path.startsWith root = true) {scope : Option Scope} {visit : Visit} :
    ∀ nodes : List Node, visit ∈ Node.visitsOfAll (some path) scope nodes →
      visit.path.startsWith root = true
  | [] => by simp [Node.visitsOfAll]
  | node :: rest => by
    rw [Node.visitsOfAll, List.mem_append]
    rintro (hmem | hmem)
    · exact startsWith_of_mem_visits_below hpath node hmem
    · exact startsWith_of_mem_visitsOfAll_below hpath rest hmem

end

/-- The nodes of a tree are filed below the fragment of its root. -/
theorem startsWith_of_mem_visits {node : Node} {visit : Visit}
    (h : visit ∈ node.visits none none) : visit.path.startsWith node.fragment = true := by
  obtain ⟨lineage, hmem, hpath⟩ := exists_lineage_of_mem_visits h
  exact hpath ▸ startsWith_of_mem_lineages hmem

/-- A tree copies nothing but the base of its root. -/
theorem copies_of_mem_visits {node : Node} {visit : Visit} (h : visit ∈ node.visits none none)
    {base : Fragment} (hcopies : visit.Copies base) : node.Copies base := by
  have htop := hcopies.parent_eq_none
  obtain ⟨root, below, hvisits, hfragment, hsource, hparents⟩ := visits_eq_cons node
  rw [hvisits, List.mem_cons] at h
  rcases h with rfl | hbelow
  · rw [Visit.Copies, htop, hfragment, hsource] at hcopies
    exact hcopies
  · have hparent := hparents visit hbelow
    rw [htop] at hparent
    cases hparent

namespace StyleTable

variable {table : StyleTable} {path : Path}

/-- Preparing a visit leaves the lists under other fragments as they are. -/
theorem Prepared.get?_of_not_startsWith {prepared : StyleTable} {visit : Visit}
    (h : table.Prepared visit prepared) {root : Fragment}
    (hroot : visit.path.startsWith root = true) (hpath : path.startsWith root = false) :
    prepared.get? path = table.get? path := by
  cases h with
  | plain => rfl
  | copied htop _ hclone =>
    rw [get?_cloneBase hclone, Visit.fragment_eq_of_startsWith htop hroot, hpath, if_neg nofun,
      Option.or_none]

/-- Placing a visit below a root leaves the paths that do not start with the root. -/
theorem get?_place_of_not_startsWith {visit : Visit} {root : Fragment}
    (hroot : visit.path.startsWith root = true) (hpath : path.startsWith root = false) :
    (table.place visit).table.get? path = table.get? path := by
  have houtcome := outcome_place table visit
  generalize table.place visit = progress at houtcome ⊢
  cases houtcome with
  | refused error => rfl
  | stopped error hprepared => exact hprepared.get?_of_not_startsWith hroot hpath
  | filed harrival hfiling =>
    have hne : path ≠ visit.path := by
      rintro rfl
      rw [hroot] at hpath
      cases hpath
    rw [get?_file, if_neg hne]
    exact (prepared_of_arrival harrival).get?_of_not_startsWith hroot hpath

/-- Placing visits below a root leaves the paths that do not start with the root. -/
theorem get?_run_of_not_startsWith {progress : Progress} {visits : List Visit} {root : Fragment}
    (hroot : ∀ visit ∈ visits, visit.path.startsWith root = true)
    (hpath : path.startsWith root = false) :
    (progress.run visits).table.get? path = progress.table.get? path :=
  Progress.table_run_induction (P := fun table => table.get? path = progress.table.get? path)
    (fun _ visit hmem hkept =>
      (get?_place_of_not_startsWith (hroot visit hmem) hpath).trans hkept) rfl

/-- Assembling a tree leaves the paths that do not start with the fragment of its root. -/
theorem get?_assemble_of_not_startsWith (table : StyleTable) {node : Node}
    (hpath : path.startsWith node.fragment = false) :
    (table.assemble node none none).table.get? path = table.get? path :=
  get?_run_of_not_startsWith (fun _ => startsWith_of_mem_visits) hpath

/-- The tables have the same lists for these paths. -/
def AgreeOn (S : Path → Prop) (left right : StyleTable) : Prop :=
  ∀ path, S path → left.get? path = right.get? path

/-- Tables that agree on the path of a visit, and on what is copied to paths they agree on, place
the visit alike. -/
theorem AgreeOn.placingLaw {S : Path → Prop} {visit : Visit} (hown : S visit.path)
    (hbase : ∀ base, visit.Copies base → S (Path.root base) ∧
      ∀ path, S path → path.startsWith visit.fragment = true → S (path.rebase base)) :
    PlacingLaw (AgreeOn S) visit where
  contains_base h hcopies := by
    rw [contains_eq_isSome_get?, contains_eq_isSome_get?, h _ (hbase _ hcopies).1]
  clone h hcopies hleft hright path hpath := by
    rw [get?_cloneBase hleft, get?_cloneBase hright, h path hpath]
    by_cases hstart : path.startsWith visit.fragment = true
    · rw [h _ ((hbase _ hcopies).2 path hpath hstart)]
    · rw [if_neg hstart, if_neg hstart]
  filing entry h := by rw [StyleTable.filing, StyleTable.filing, h _ hown]
  file h _ path hpath := by rw [get?_file, get?_file, h _ hown, h path hpath]

/-- The paths that assembling the tree looks at: those below its root, and those below the base of
its root. -/
def LooksAt (node : Node) (path : Path) : Prop :=
  path.startsWith node.fragment = true ∨ ∃ base, node.Copies base ∧ path.startsWith base = true

/-- Tables that agree on what a tree looks at are changed alike by the tree. -/
theorem AgreeOn.assemble {node : Node} {left right : StyleTable}
    (h : AgreeOn (LooksAt node) left right) :
    Progress.Related (AgreeOn (LooksAt node)) (left.assemble node none none)
      (right.assemble node none none) := by
  refine Progress.Related.run (fun visit hmem => AgreeOn.placingLaw ?_ fun base hcopies => ?_)
    ⟨rfl, h⟩
  · exact Or.inl (startsWith_of_mem_visits hmem)
  · have hnode := copies_of_mem_visits hmem hcopies
    exact ⟨Or.inr ⟨base, hnode, Path.startsWith_root base⟩,
      fun path _ hstart => Or.inr ⟨base, hnode, Path.startsWith_rebase hstart base⟩⟩

end StyleTable

/-- The trees have different roots, and neither is a subclass of the root of the other. -/
structure Node.Independent (first second : Node) : Prop where
  roots : first.fragment ≠ second.fragment
  not_copies : ¬first.Copies second.fragment
  not_copied : ¬second.Copies first.fragment

/-- Independence does not depend on the order of the nodes. -/
theorem Node.Independent.symm {first second : Node} (h : first.Independent second) :
    second.Independent first :=
  ⟨h.roots.symm, h.not_copied, h.not_copies⟩

namespace StyleTable

variable {first second : Node}

/-- A tree looks at nothing that is filed below the root of an independent tree. -/
theorem LooksAt.not_startsWith (h : first.Independent second) {path : Path}
    (hlooks : LooksAt first path) : path.startsWith second.fragment = false := by
  rcases hlooks with hroot | ⟨base, hcopies, hbase⟩
  · exact Path.startsWith_eq_false hroot h.roots
  · refine Path.startsWith_eq_false hbase ?_
    rintro rfl
    exact h.not_copies hcopies

/-- A tree is assembled alike before and after an independent one. -/
theorem related_assemble_of_independent (h : first.Independent second) (table : StyleTable) :
    Progress.Related (AgreeOn (LooksAt first)) (table.assemble first none none)
      ((table.assemble second none none).table.assemble first none none) :=
  AgreeOn.assemble fun _ hlooks =>
    (get?_assemble_of_not_startsWith table (hlooks.not_startsWith h)).symm

/-- Independent trees can be assembled in either order. -/
theorem get?_assemble_comm (h : first.Independent second) (table : StyleTable) (path : Path) :
    ((table.assemble first none none).table.assemble second none none).table.get? path =
      ((table.assemble second none none).table.assemble first none none).table.get? path := by
  by_cases hfirst : path.startsWith first.fragment = true
  · have hsecond := LooksAt.not_startsWith h (Or.inl hfirst)
    rw [get?_assemble_of_not_startsWith _ hsecond]
    exact (related_assemble_of_independent h table).table path (Or.inl hfirst)
  · rw [Bool.not_eq_true] at hfirst
    rw [get?_assemble_of_not_startsWith (table.assemble second none none).table hfirst]
    by_cases hsecond : path.startsWith second.fragment = true
    · exact ((related_assemble_of_independent h.symm table).table path (Or.inl hsecond)).symm
    · rw [Bool.not_eq_true] at hsecond
      rw [get?_assemble_of_not_startsWith _ hsecond, get?_assemble_of_not_startsWith _ hfirst,
        get?_assemble_of_not_startsWith _ hsecond]

end StyleTable

end StyleForest
