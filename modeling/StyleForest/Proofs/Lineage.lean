import Mathlib.Data.List.Chain
import StyleForest.Forest.Visit

/-!
# Nodes with the nodes above them

A lineage is a node of a forest together with the chain of nodes from a root down to it. The
lineages of a forest are listed in the order in which a walk from the top meets the nodes, and
they are exactly the chains that lead from a root from child to child (`mem_lineages_iff`). What
a walk carries down is read off the chain: the visits of a forest are the visits of its lineages
(`visitsOfAll_eq_map`), with the path that the fragments of the chain spell and the range of the
nearest node of the chain that declares one.
-/

namespace StyleForest

/-- A node with the nodes above it, the root first. -/
structure Lineage where
  above : List Node
  node : Node

mutual

/-- The lineages of a tree below a chain of nodes, in pre-order. -/
def Node.lineages (above : List Node) : Node → List Lineage
  | .mk element attributes declarations children =>
    let node := Node.mk element attributes declarations children
    ⟨above, node⟩ :: Node.lineagesOfAll (above ++ [node]) children

/-- The lineages of trees in a row. -/
def Node.lineagesOfAll (above : List Node) : List Node → List Lineage
  | [] => []
  | node :: rest => Node.lineages above node ++ Node.lineagesOfAll above rest

end

/-- The lineages of a forest, in pre-order. -/
def lineages (forest : List Node) : List Lineage :=
  Node.lineagesOfAll [] forest

/-- The second node is a child of the first. -/
def Node.ParentOf (parent child : Node) : Prop :=
  child ∈ parent.children

namespace Lineage

/-- The chain from the root down to the node itself. -/
def nodes (lineage : Lineage) : List Node :=
  lineage.above ++ [lineage.node]

/-- The path that the fragments of the chain spell. -/
def path (lineage : Lineage) : Path :=
  ⟨lineage.nodes.map Node.fragment⟩

/-- The range of the nearest node on the way up that declares one, or the range of all widths. -/
def range (lineage : Lineage) : Breakpoint :=
  (lineage.nodes.reverse.findSome? fun node => node.attributes.breakpoint?).getD
    Breakpoint.unbounded

/-- A chain is determined by its nodes. -/
theorem nodes_injective {left right : Lineage} (h : left.nodes = right.nodes) : left = right := by
  obtain ⟨leftAbove, leftNode⟩ := left
  obtain ⟨rightAbove, rightNode⟩ := right
  obtain ⟨habove, hnode⟩ := List.append_inj' h rfl
  rw [Lineage.mk.injEq]
  exact ⟨habove, List.head_eq_of_cons_eq hnode⟩

end Lineage

mutual

private theorem mem_node_lineages (above : List Node) :
    ∀ (node : Node) (lineage : Lineage), lineage ∈ node.lineages above ↔
      ∃ below, lineage.nodes = above ++ node :: below ∧ (node :: below).IsChain Node.ParentOf
  | .mk element attributes declarations children, lineage => by
    rw [Node.lineages, List.mem_cons, mem_lineagesOfAll _ children]
    constructor
    · rintro (rfl | ⟨child, hchild, below, hnodes, hchain⟩)
      · exact ⟨[], rfl, List.isChain_singleton _⟩
      · refine ⟨child :: below, ?_, List.isChain_cons_cons.2 ⟨hchild, hchain⟩⟩
        rw [hnodes, List.append_assoc, List.singleton_append]
    · rintro ⟨below, hnodes, hchain⟩
      cases below with
      | nil => exact Or.inl (Lineage.nodes_injective hnodes)
      | cons child below =>
        obtain ⟨hchild, hbelow⟩ := List.isChain_cons_cons.1 hchain
        refine Or.inr ⟨child, hchild, below, ?_, hbelow⟩
        rw [hnodes, List.append_assoc, List.singleton_append]

private theorem mem_lineagesOfAll (above : List Node) :
    ∀ (nodes : List Node) (lineage : Lineage), lineage ∈ Node.lineagesOfAll above nodes ↔
      ∃ node ∈ nodes, ∃ below, lineage.nodes = above ++ node :: below ∧
        (node :: below).IsChain Node.ParentOf
  | [], lineage => by simp [Node.lineagesOfAll]
  | node :: rest, lineage => by
    rw [Node.lineagesOfAll, List.mem_append, mem_node_lineages above node,
      mem_lineagesOfAll above rest, List.exists_mem_cons_iff]

end

/-- The lineages of a forest are the chains of nodes that lead from a root from child to child. -/
theorem mem_lineages_iff {forest : List Node} {lineage : Lineage} :
    lineage ∈ lineages forest ↔
      ∃ root ∈ forest, lineage.nodes.head? = some root ∧
        lineage.nodes.IsChain Node.ParentOf := by
  rw [lineages, mem_lineagesOfAll]
  refine exists_congr fun root => and_congr_right fun _ => ?_
  constructor
  · rintro ⟨below, hnodes, hchain⟩
    rw [hnodes]
    exact ⟨rfl, hchain⟩
  · rintro ⟨hhead, hchain⟩
    obtain ⟨below, hnodes⟩ := List.head?_eq_some_iff.1 hhead
    exact ⟨below, hnodes, hnodes ▸ hchain⟩

/-- The parent of a node of a forest is a node of the forest. -/
theorem parent_mem_lineages {forest : List Node} {above : List Node} {parent node : Node}
    (h : ⟨above ++ [parent], node⟩ ∈ lineages forest) : ⟨above, parent⟩ ∈ lineages forest := by
  obtain ⟨root, hroot, hhead, hchain⟩ := mem_lineages_iff.1 h
  refine mem_lineages_iff.2 ⟨root, hroot, ?_, hchain.left_of_append⟩
  simpa [Lineage.nodes] using hhead

/-- What is settled above a node when a walk comes to it. -/
structure Standing where
  parent : Option Path
  scope : Option Scope

/-- The visit of a node where this is settled above it. -/
def Standing.visit (standing : Standing) (node : Node) : Visit where
  parent := standing.parent
  scope := standing.scope
  element := node.element
  attributes := node.attributes
  declarations := node.declarations

/-- What is settled for the children of a node. -/
def Standing.below (standing : Standing) (node : Node) : Standing :=
  ⟨some (standing.visit node).path, (standing.visit node).innerScope⟩

/-- What a chain of nodes settles for a node below it. -/
def standing (above : List Node) : Standing :=
  above.foldl Standing.below ⟨none, none⟩

/-- The visit of a node below the chain above it. -/
def Lineage.visit (lineage : Lineage) : Visit :=
  (standing lineage.above).visit lineage.node

/-- The standing of a longer chain is the one below its last node. -/
theorem standing_append_singleton (above : List Node) (node : Node) :
    standing (above ++ [node]) = (standing above).below node := by
  rw [standing, List.foldl_append]
  rfl

mutual

private theorem visits_eq_map (above : List Node) :
    ∀ node : Node, node.visits (standing above).parent (standing above).scope =
      (node.lineages above).map Lineage.visit
  | .mk element attributes declarations children => by
    have hbelow := visitsOfAll_eq_map_below
      (above ++ [Node.mk element attributes declarations children]) children
    rw [standing_append_singleton] at hbelow
    rw [Node.visits, Node.lineages, List.map_cons, ← hbelow]
    rfl

private theorem visitsOfAll_eq_map_below (above : List Node) :
    ∀ nodes : List Node, Node.visitsOfAll (standing above).parent (standing above).scope nodes =
      (Node.lineagesOfAll above nodes).map Lineage.visit
  | [] => rfl
  | node :: rest => by
    rw [Node.visitsOfAll, Node.lineagesOfAll, List.map_append, visits_eq_map above node,
      visitsOfAll_eq_map_below above rest]

end

/-- A walk of a forest visits its lineages in order. -/
theorem visitsOfAll_eq_map (forest : List Node) :
    Node.visitsOfAll none none forest = (lineages forest).map Lineage.visit :=
  visitsOfAll_eq_map_below [] forest

/-- A walk of a tree visits its lineages in order. -/
theorem visits_eq_map_lineages (node : Node) :
    node.visits none none = (lineages [node]).map Lineage.visit := by
  rw [← visitsOfAll_eq_map, Node.visitsOfAll, Node.visitsOfAll, List.append_nil]

/-- What the fragments of all visits of a walk meet is what those of all nodes meet. -/
theorem forall_fragment_visitsOfAll_iff (C : Fragment → Prop) {forest : List Node} :
    (∀ visit ∈ Node.visitsOfAll none none forest, C visit.fragment) ↔
      ∀ lineage ∈ lineages forest, C lineage.node.fragment := by
  rw [visitsOfAll_eq_map, List.forall_mem_map]
  rfl

private theorem under_parent_standing (above : List Node) (fragment : Fragment) :
    Path.under (standing above).parent fragment = ⟨above.map Node.fragment ++ [fragment]⟩ := by
  induction above using List.reverseRecOn generalizing fragment with
  | nil => rfl
  | append_singleton above node ih =>
    have hpath : ((standing above).visit node).path =
        ⟨above.map Node.fragment ++ [node.fragment]⟩ := ih node.fragment
    rw [standing_append_singleton, Standing.below, hpath]
    simp [Path.under, Path.child]

/-- The path of a visit is the one that the fragments of the chain spell. -/
theorem Lineage.path_visit (lineage : Lineage) : lineage.visit.path = lineage.path := by
  have h : lineage.visit.path =
      Path.under (standing lineage.above).parent lineage.node.fragment := rfl
  rw [h, under_parent_standing, path, nodes, List.map_append]
  rfl

/-- The scope that a chain hands down is the one of its nearest node that declares a range. -/
theorem scope_standing (above : List Node) :
    (standing above).scope.map Scope.breakpoint =
      above.reverse.findSome? fun node => node.attributes.breakpoint? := by
  induction above using List.reverseRecOn with
  | nil => rfl
  | append_singleton above node ih =>
    rw [standing_append_singleton, List.reverse_append, List.reverse_singleton,
      List.singleton_append, List.findSome?_cons, Standing.below, Visit.innerScope]
    cases h : node.attributes.breakpoint? with
    | none => simp [Standing.visit, h, ih]
    | some breakpoint => simp [Standing.visit, h]

/-- A chain hands down no scope when none of its nodes declares a range. -/
theorem scope_standing_eq_none_iff {above : List Node} :
    (standing above).scope = none ↔
      ∀ node ∈ above, ¬node.attributes.declaresBreakpoint = true := by
  have hscope := scope_standing above
  rw [← Option.map_eq_none_iff, hscope, List.findSome?_eq_none_iff]
  simp only [List.mem_reverse, Attributes.breakpoint?_eq_none_iff]

end StyleForest
