import StyleForest.Proofs.Copying
import StyleForest.Proofs.Editing

/-!
# What a failure leaves

A walk that fails has a first node that cannot be placed. The nodes before it in pre-order are
placed, and of that node nothing is left but the copies of its base, when it is a subclass at the
top of the tree and everything but its declarations is accepted (`StyleTable.left_by_failure`).
-/

namespace StyleForest

/-- A run that fails fails at one of its nodes, after all nodes before it have been placed. -/
theorem Progress.exists_failing {table left : StyleTable} {error : StyleError}
    {visits : List Visit} (h : (start table).run visits = ⟨left, some error⟩) :
    ∃ before failing after reached, visits = before ++ failing :: after ∧
      (start table).run before = ⟨reached, none⟩ ∧
      reached.place failing = ⟨left, some error⟩ := by
  induction visits generalizing table with
  | nil => cases h
  | cons visit rest ih =>
    rw [run_cons_of_running rfl, start] at h
    cases hplace : table.place visit with
    | mk placed failure =>
      rw [hplace] at h
      cases failure with
      | some reason =>
        rw [run_of_failure rfl] at h
        exact ⟨[], visit, rest, table, rfl, rfl, hplace.trans h⟩
      | none =>
        obtain ⟨before, failing, after, reached, rfl, hbefore, hfailing⟩ := ih h
        refine ⟨visit :: before, failing, after, reached, rfl, ?_, hfailing⟩
        rw [run_cons_of_running rfl, start, hplace]
        exact hbefore

namespace StyleTable

/-- The node is a subclass at the top of a tree. Its base is copied, and then its declarations are
refused. -/
def RefusedWithCopies (table : StyleTable) (visit : Visit) (cloned : StyleTable)
    (error : StyleError) : Prop :=
  visit.parent = none ∧ ∃ base range, visit.fragment.base? = some base ∧
    visit.placement = .ok ⟨range, some base⟩ ∧
    table.cloneBase base visit.fragment visit.source = .ok cloned ∧
    cloned.register visit.path visit.element visit.declarations range visit.source = .error error

/-- A subclass that is refused after copying leaves the table with its copies. -/
theorem RefusedWithCopies.place_eq {table cloned : StyleTable} {visit : Visit}
    {error : StyleError} (h : table.RefusedWithCopies visit cloned error) :
    table.place visit = ⟨cloned, some error⟩ := by
  obtain ⟨_, base, range, _, hplacement, hclone, hregister⟩ := h
  have hprepare : table.prepare visit ⟨range, some base⟩ = .ok cloned := hclone
  simp only [place, hplacement, hprepare, hregister]

/-- A node that is refused leaves the table as it was, or with the copies of its base. -/
theorem left_of_place {table left : StyleTable} {visit : Visit} {error : StyleError}
    (h : table.place visit = ⟨left, some error⟩) :
    left = table ∨ table.RefusedWithCopies visit left error := by
  unfold place at h
  cases hplacement : visit.placement with
  | error reason =>
    rw [hplacement] at h
    cases h
    exact Or.inl rfl
  | ok placement =>
    cases hprepare : table.prepare visit placement with
    | error reason =>
      simp only [hplacement, hprepare] at h
      cases h
      exact Or.inl rfl
    | ok prepared =>
      simp only [hplacement, hprepare] at h
      cases hregister : prepared.register visit.path visit.element visit.declarations
          placement.range visit.source with
      | ok filed =>
        rw [hregister] at h
        cases h
      | error reason =>
        rw [hregister] at h
        cases h
        obtain ⟨range, base?⟩ := placement
        rcases base_of_placement hplacement with ⟨_, rfl⟩ | ⟨htop, base, hbase, rfl⟩
        · cases hprepare
          exact Or.inl rfl
        · exact Or.inr ⟨htop, base, range, hbase, hplacement, hprepare, hregister⟩

/-- The only node of a tree that has no parent is the first one. -/
theorem before_eq_nil_of_parent {node : Node} {before after : List Lineage} {failing : Lineage}
    (h : lineages [node] = before ++ failing :: after) (htop : failing.visit.parent = none) :
    before = [] := by
  obtain ⟨visit, below, hvisits, _, _, hparents⟩ := visits_eq_cons node
  have hsplit : visit :: below = before.map Lineage.visit ++
      failing.visit :: after.map Lineage.visit := by
    rw [← hvisits, visits_eq_map_lineages, h, List.map_append, List.map_cons]
  cases before with
  | nil => rfl
  | cons first before =>
    have hmem : failing.visit ∈ below := by
      rw [(List.cons.inj hsplit).2]
      exact List.mem_append_right _ List.mem_cons_self
    have hsome := hparents _ hmem
    rw [htop] at hsome
    cases hsome

/-- Filing and copying leave a table as it was when they fail, also where they edit it in place. So
the failure of a tree is that of its first node, in pre-order, that cannot be placed, and the table
that is left is the one with all nodes before it placed; the copies of a base are added when that
node is the root, a subclass, and only its declarations are refused. -/
theorem left_by_failure (table : StyleTable) :
    (∀ (path : Path) (element text : String) (range : Breakpoint) (source : Option Location)
      (error : StyleError) (left : StyleTable),
      (TableEdit.register path element text range source).run table = .error error left →
      table.register path element text range source = .error error ∧ left = table) ∧
    (∀ (base target : Fragment) (source : Option Location) (error : StyleError)
      (left : StyleTable),
      (TableEdit.cloneBase base target source).run table = .error error left →
      table.cloneBase base target source = .error error ∧ left = table) ∧
    ∀ (node : Node) (error : StyleError) (left : StyleTable),
      (TableEdit.walk none none node).run table = .error error left →
      table.assemble node none none = ⟨left, some error⟩ ∧
      ∃ before failing after reached, lineages [node] = before ++ failing :: after ∧
        (Progress.start table).run (before.map Lineage.visit) = ⟨reached, none⟩ ∧
        (reached.place failing.visit).failure = some error ∧
        (∀ cloned, reached.RefusedWithCopies failing.visit cloned error →
          before = [] ∧ left = cloned) ∧
        ((∀ cloned, ¬reached.RefusedWithCopies failing.visit cloned error) → left = reached) := by
  refine ⟨fun path element text range source error left hrun => ?_,
    fun base target source error left hrun => ?_, fun node error left hrun => ?_⟩
  · rw [TableEdit.run_register] at hrun
    exact TableEdit.settle_eq_error_iff.1 hrun
  · rw [TableEdit.run_cloneBase] at hrun
    exact TableEdit.settle_eq_error_iff.1 hrun
  · rw [TableEdit.run_walk] at hrun
    have hend := TableEdit.ofProgress_eq_error_iff.1 hrun
    refine ⟨hend, ?_⟩
    rw [assemble, visits_eq_map_lineages] at hend
    obtain ⟨_, _, _, reached, hsplit, hbefore, hplace⟩ := Progress.exists_failing hend
    obtain ⟨before, rest, hlineages, rfl, hrest⟩ := List.map_eq_append_iff.1 hsplit
    obtain ⟨failing, after, rfl, rfl, rfl⟩ := List.map_eq_cons_iff.1 hrest
    refine ⟨before, failing, after, reached, hlineages, hbefore, by rw [hplace],
      fun cloned hrefused => ⟨before_eq_nil_of_parent hlineages hrefused.1, ?_⟩, fun hno => ?_⟩
    · have hcloned := hrefused.place_eq
      rw [hplace] at hcloned
      cases hcloned
      rfl
    · exact (left_of_place hplace).resolve_right (hno left)

/-- The declarations of a large button are refused, but what is inside a button has been copied. -/
theorem large_button_refused_with_copies :
    let button := Node.mk "button" { className := "primary" } "color: red;"
      [Node.mk "span" {} "margin: 0;" []]
    let large := Node.mk "button" { className := "primary.large" } "bold" []
    let table := (empty.assemble button none none).table
    let copy : Path := ⟨[large.fragment, { element := "span" }]⟩
    ∃ error left, (TableEdit.walk none none large).run table = .error error left ∧
      table.contains copy = false ∧ left.contains copy = true ∧
      table.RefusedWithCopies (Lineage.visit ⟨[], large⟩) left error := by
  intro button large table copy
  have hfails : (table.assemble large none none).failure.isSome = true := by decide +kernel
  have habsent : table.contains copy = false := by decide +kernel
  have hcopied : (table.assemble large none none).table.contains copy = true := by decide +kernel
  obtain ⟨error, herror⟩ := Option.isSome_iff_exists.1 hfails
  have hrun : (TableEdit.walk none none large).run table =
      .error error (table.assemble large none none).table := by
    rw [TableEdit.run_walk, TableEdit.ofProgress_eq_error_iff, ← herror]
  obtain ⟨_, before, failing, after, reached, hsplit, hbefore, _, hcopies, hkept⟩ :=
    (left_by_failure table).2.2 large error _ hrun
  -- The tree has no other node than its root.
  have hroot : lineages [large] = [⟨[], large⟩] := rfl
  rw [hroot] at hsplit
  rcases List.append_eq_singleton_iff.1 hsplit.symm with ⟨rfl, hfailing⟩ | ⟨_, hnil⟩
  case inr => cases hnil
  cases hfailing
  cases hbefore
  refine ⟨error, _, hrun, habsent, hcopied, ?_⟩
  by_contra hno
  have hleft := hkept fun cloned hrefused => hno ((hcopies cloned hrefused).2 ▸ hrefused)
  rw [hleft, habsent] at hcopied
  cases hcopied

end StyleTable

end StyleForest
