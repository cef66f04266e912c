import StyleForest.Proofs.Acceptance

/-!
# The table of a forest

The table that a forest without subclasses is assembled into is read off the nodes of the forest
alone (`assembleForest_table_eq_grouped`): its paths are those of the nodes in the order in which
a walk meets them first, and the entries of a path are those of the nodes with that path, in the
order of the walk. An entry holds for the range that the chain down to its node declares.
-/

namespace StyleForest

namespace Lineage

/-- The range is declared by exactly one node of the chain, or it is the range of all widths and
no node of the chain declares one. -/
def Declares (lineage : Lineage) (range : Breakpoint) : Prop :=
  (∃ before node after, lineage.nodes = before ++ node :: after ∧
    node.attributes.breakpoint? = some range ∧
    ∀ other ∈ before ++ after, other.attributes.breakpoint? = none) ∨
  range = Breakpoint.unbounded ∧ ∀ node ∈ lineage.nodes, node.attributes.breakpoint? = none

/-- The range of a chain is the only one that it declares. -/
theorem DeclaresOnce.declares_range {lineage : Lineage} (h : lineage.DeclaresOnce) :
    lineage.Declares lineage.range := by
  cases hfound : lineage.nodes.reverse.findSome? fun node => node.attributes.breakpoint? with
  | none =>
    rw [List.findSome?_eq_none_iff] at hfound
    refine Or.inr ⟨?_, fun node hmem => hfound node (List.mem_reverse.2 hmem)⟩
    rw [range, List.findSome?_eq_none_iff.2 hfound, Option.getD_none]
  | some declared =>
    have hrange : lineage.range = declared := by rw [range, hfound, Option.getD_some]
    obtain ⟨below, node, above, hsplit, hnode, hbelow⟩ := List.findSome?_eq_some_iff.1 hfound
    have hnodes : lineage.nodes = above.reverse ++ node :: below.reverse := by
      rw [← List.reverse_reverse lineage.nodes, hsplit]
      simp
    refine Or.inl ⟨above.reverse, node, below.reverse, hnodes, hrange ▸ hnode, ?_⟩
    -- The node found is the lowest one that declares a range, and there is no second one above.
    have hdeclares : node.attributes.declaresBreakpoint = true := by
      by_contra hnot
      rw [Attributes.breakpoint?_eq_none_iff.2 hnot] at hnode
      cases hnode
    rw [DeclaresOnce, hnodes, List.countP_append, List.countP_cons, if_pos hdeclares] at h
    have habove := List.countP_eq_zero.1 (show above.reverse.countP
      (fun node => node.attributes.declaresBreakpoint) = 0 by omega)
    intro other hother
    rcases List.mem_append.1 hother with hmem | hmem
    · exact Attributes.breakpoint?_eq_none_iff.2 (habove other hmem)
    · exact hbelow other (List.mem_reverse.1 hmem)

/-- The row is what the node of the chain is filed as: under the path of the chain, the block that
its text is, for the range that the chain declares, with the place where the node was written. -/
structure FiledAs (lineage : Lineage) (row : Path × Entry) : Prop where
  path : row.1 = lineage.path
  block : Block.parse lineage.node.declarations = .ok row.2.block
  range : lineage.Declares row.2.breakpoint
  source : row.2.source = lineage.node.attributes.source

private theorem filedAs_of_readAs {lineage : Lineage} {row : Path × Entry}
    (honce : lineage.DeclaresOnce) (h : lineage.ReadAs row) : lineage.FiledAs row := by
  obtain ⟨hpath, _, _, hholds, hrange, hsource⟩ := readAs_iff.1 h
  exact ⟨hpath, hholds.1, hrange ▸ honce.declares_range, hsource⟩

end Lineage

/-- When a forest whose class names have no dots is assembled without a failure, its table groups
the entries of its nodes by their paths, both in the order of a walk. -/
theorem assembleForest_table_eq_grouped (forest : List Node)
    (hdots : ∀ lineage ∈ lineages forest, ∀ className,
      lineage.node.attributes.className = some className → '.' ∉ className.toList)
    (hend : (assembleForest forest).failure = none) :
    ∃ placed, (lineages forest).Forall₂ Lineage.FiledAs placed ∧
      (assembleForest forest).table.toList = StyleTable.grouped placed := by
  have hplain : ∀ visit ∈ Node.visitsOfAll none none forest, visit.fragment.subclass? = none :=
    (forall_fragment_visitsOfAll_iff fun fragment => fragment.subclass? = none).2
      fun lineage hmem => Fragment.subclass?_eq_none (hdots lineage hmem)
  obtain ⟨placed, hread, _, hrows⟩ := (assembleForest_eq_grouped_iff hplain).1 ⟨hend, rfl⟩
  rw [visitsOfAll_eq_map, List.forall₂_map_left_iff] at hread
  -- No node is nested in the scope of another, so every chain declares at most one range.
  have hunnested : ∀ lineage ∈ lineages forest, lineage.Unnested :=
    ((List.forall₂_and_left ..).1 (hread.imp fun lineage row hrow =>
      ⟨(Lineage.readAs_iff.1 hrow).2.2.1, hrow⟩)).1
  have honce := forall_declaresOnce_iff.2 hunnested
  refine ⟨placed, ((List.forall₂_and_left ..).2 ⟨honce, hread⟩).imp ?_, hrows⟩
  rintro lineage row ⟨hdeclares, hrow⟩
  exact Lineage.filedAs_of_readAs hdeclares hrow

/-- Two trees with a card each. The paragraph of the first is inside the scope of its card, the
one of the second is not, and both are filed under one path in the order of the trees. -/
theorem grouped_cards :
    let forest := [
      Node.mk "div" { className := "card", minWidth := some 600 } "color: red;"
        [Node.mk "p" { source := some ⟨"card.jsx", 3, 5⟩ } "padding: 4px;" []],
      Node.mk "div" { className := "card" } "margin: 0;"
        [Node.mk "p" { maxWidth := some 599 } "padding: 8px;" []]]
    (∀ lineage ∈ lineages forest, ∀ className,
      lineage.node.attributes.className = some className → '.' ∉ className.toList) ∧
      (assembleForest forest).failure = none ∧
      ∃ placed, (lineages forest).Forall₂ Lineage.FiledAs placed ∧
        (assembleForest forest).table.toList = StyleTable.grouped placed := by
  intro forest
  have hdots : ∀ lineage ∈ lineages forest, ∀ className,
      lineage.node.attributes.className = some className → '.' ∉ className.toList := by
    simp [forest, lineages, Node.lineagesOfAll, Node.lineages, Node.attributes]
  have hend : (assembleForest forest).failure = none := by decide +kernel
  exact ⟨hdots, hend, assembleForest_table_eq_grouped forest hdots hend⟩

end StyleForest
