import StyleForest.Proofs.Acceptance

/-!
# The case of element names

The names of elements have no case in a document, and the elements that can use a property are
looked up without regard to it. Paths are compared as they are spelled, so two nodes with two
spellings of one name are not compared with each other. What is asked of each node alone is the same
in all spellings; so a change of case changes whether a forest compiles exactly when it brings about
the first clash between two nodes or hides the last one, which it cannot do as long as every name is
spelled in one way (`Compiler.isOk_compile_recased_iff`).
-/

namespace StyleForest

mutual

/-- The tree with its element names in lower case. -/
def Node.lowered : Node → Node
  | .mk element attributes declarations children =>
    .mk (Text.lower element) attributes declarations (Node.loweredAll children)

/-- The trees with their element names in lower case. -/
def Node.loweredAll : List Node → List Node
  | [] => []
  | node :: rest => node.lowered :: Node.loweredAll rest

end

/-- The forests differ in the case of element names only. -/
def Recased (forest other : List Node) : Prop :=
  Node.loweredAll forest = Node.loweredAll other

/-- Differing in case does not depend on the order of the forests. -/
theorem Recased.symm {forest other : List Node} (h : Recased forest other) :
    Recased other forest :=
  Eq.symm h

/-- The fragment with its element in lower case. -/
def Fragment.lowered (fragment : Fragment) : Fragment :=
  { fragment with element := Text.lower fragment.element }

namespace Node

@[simp] theorem element_lowered (node : Node) : node.lowered.element = Text.lower node.element := by
  cases node
  rw [lowered]
  rfl

@[simp] theorem attributes_lowered (node : Node) : node.lowered.attributes = node.attributes := by
  cases node
  rw [lowered]
  rfl

@[simp] theorem declarations_lowered (node : Node) :
    node.lowered.declarations = node.declarations := by
  cases node
  rw [lowered]
  rfl

/-- The fragment of a lowered node is the lowered fragment. -/
theorem fragment_lowered (node : Node) : node.lowered.fragment = node.fragment.lowered := by
  simp [fragment, Fragment.lowered]

end Node

namespace Lineage

/-- The chain with its element names in lower case. -/
def lowered (lineage : Lineage) : Lineage :=
  ⟨lineage.above.map Node.lowered, lineage.node.lowered⟩

/-- The nodes of a lowered chain are its nodes, lowered. -/
theorem nodes_lowered (lineage : Lineage) :
    lineage.lowered.nodes = lineage.nodes.map Node.lowered := by
  simp [nodes, lowered]

/-- Chains that differ in the case of element names have the same attributes. -/
theorem attributes_of_lowered {twin lineage : Lineage} (h : twin.lowered = lineage.lowered) :
    twin.node.attributes = lineage.node.attributes := by
  have hnode : twin.node.lowered = lineage.node.lowered := congrArg Lineage.node h
  rw [← twin.node.attributes_lowered, hnode, Node.attributes_lowered]

/-- Chains that differ in the case of element names have the same text. -/
theorem declarations_of_lowered {twin lineage : Lineage} (h : twin.lowered = lineage.lowered) :
    twin.node.declarations = lineage.node.declarations := by
  have hnode : twin.node.lowered = lineage.node.lowered := congrArg Lineage.node h
  rw [← twin.node.declarations_lowered, hnode, Node.declarations_lowered]

end Lineage

mutual

private theorem lineages_lowered (above : List Node) :
    ∀ node : Node, node.lowered.lineages (above.map Node.lowered) =
      (node.lineages above).map Lineage.lowered
  | .mk element attributes declarations children => by
    have hbelow := lineagesOfAll_lowered
      (above ++ [Node.mk element attributes declarations children]) children
    rw [List.map_append, List.map_singleton, Node.lowered] at hbelow
    rw [Node.lowered, Node.lineages, hbelow, Node.lineages, List.map_cons, Lineage.lowered,
      Node.lowered]

private theorem lineagesOfAll_lowered (above : List Node) :
    ∀ nodes : List Node, Node.lineagesOfAll (above.map Node.lowered) (Node.loweredAll nodes) =
      (Node.lineagesOfAll above nodes).map Lineage.lowered
  | [] => rfl
  | node :: rest => by
    rw [Node.loweredAll, Node.lineagesOfAll, lineages_lowered above node,
      lineagesOfAll_lowered above rest, Node.lineagesOfAll, List.map_append]

end

/-- The lineages of a forest in lower case are its lineages in lower case. -/
theorem lineages_loweredAll (forest : List Node) :
    lineages (Node.loweredAll forest) = (lineages forest).map Lineage.lowered :=
  lineagesOfAll_lowered [] forest

/-- Every lineage of a forest has a twin at the same place of a recased one. -/
theorem Recased.exists_twin {forest other : List Node} (h : Recased forest other) {i : Nat}
    {lineage : Lineage} (hi : (lineages forest)[i]? = some lineage) :
    ∃ twin, (lineages other)[i]? = some twin ∧ twin.lowered = lineage.lowered := by
  have hlineages : (lineages forest).map Lineage.lowered =
      (lineages other).map Lineage.lowered := by
    rw [← lineages_loweredAll, ← lineages_loweredAll, h]
  have hplace := congrArg (fun list : List Lineage => list[i]?) hlineages
  simp only [List.getElem?_map, hi, Option.map_some] at hplace
  exact Option.map_eq_some_iff.1 hplace.symm

/-- Elements are looked up without regard to case. -/
theorem Property.usableOn_lower (element property : String) :
    usableOn (Text.lower element) property = usableOn element property := by
  simp only [usableOn, Text.sameName, Text.lower_lower]

namespace Lineage

/-- The range does not depend on the case of element names. -/
theorem range_lowered (lineage : Lineage) : lineage.lowered.range = lineage.range := by
  simp only [range, nodes_lowered, ← List.map_reverse, List.findSome?_map, Function.comp_def,
    Node.attributes_lowered]

/-- Whether a chain declares one range at most does not depend on the case of element names. -/
theorem declaresOnce_lowered_iff {lineage : Lineage} :
    lineage.lowered.DeclaresOnce ↔ lineage.DeclaresOnce := by
  simp only [DeclaresOnce, nodes_lowered, List.countP_map, Function.comp_def,
    Node.attributes_lowered]

/-- Which blocks a node holds does not depend on the case of its element. -/
theorem holds_lowered_iff {lineage : Lineage} {block : Block} :
    lineage.lowered.Holds block ↔ lineage.Holds block := by
  simp only [Holds, lowered, Node.declarations_lowered, Node.element_lowered,
    Property.usableOn_lower]

/-- The node is accepted as far as it does not depend on nodes beside it: its attributes are valid,
its chain declares one range at most, and its text is a block that its element can use. -/
def AcceptedAlone (lineage : Lineage) : Prop :=
  lineage.node.attributes.validate = .ok () ∧ lineage.DeclaresOnce ∧
    ∃ block, lineage.Holds block

/-- Whether a node is accepted alone does not depend on the case of element names. -/
theorem acceptedAlone_lowered_iff {lineage : Lineage} :
    lineage.lowered.AcceptedAlone ↔ lineage.AcceptedAlone := by
  simp only [AcceptedAlone, declaresOnce_lowered_iff, holds_lowered_iff]
  simp only [lowered, Node.attributes_lowered]

end Lineage

/-- Every node of the forest is accepted alone. -/
def AllAcceptedAlone (forest : List Node) : Prop :=
  ∀ lineage ∈ lineages forest, lineage.AcceptedAlone

/-- Which nodes are accepted alone does not depend on the case of element names. -/
theorem Recased.allAcceptedAlone_iff {forest other : List Node} (h : Recased forest other) :
    AllAcceptedAlone forest ↔ AllAcceptedAlone other := by
  have hlowered (nodes : List Node) :
      AllAcceptedAlone (Node.loweredAll nodes) ↔ AllAcceptedAlone nodes := by
    simp only [AllAcceptedAlone, lineages_loweredAll, List.forall_mem_map,
      Lineage.acceptedAlone_lowered_iff]
  rw [← hlowered forest, ← hlowered other, h]

/-- Two nodes at different places of the forest are not compatible: the path of the one, as it is
spelled, is the path of the other or ends it, their ranges overlap, and their blocks have something
to do with one property. -/
def Clashing (forest : List Node) : Prop :=
  ∃ (i j : Nat) (short long : Lineage), i ≠ j ∧ (lineages forest)[i]? = some short ∧
    (lineages forest)[j]? = some long ∧ ¬short.CompatibleWith long

/-- A forest is acceptable when its nodes are accepted alone and do not clash. -/
theorem acceptable_iff {forest : List Node} :
    Acceptable forest ↔ AllAcceptedAlone forest ∧ ¬Clashing forest := by
  constructor
  · intro h
    refine ⟨fun lineage hmem => ⟨h.attributes lineage hmem, h.scopes lineage hmem,
      h.blocks lineage hmem⟩, ?_⟩
    rintro ⟨i, j, short, long, hij, hi, hj, hclash⟩
    exact hclash (h.compatible i j short long hij hi hj)
  · rintro ⟨halone, hfree⟩
    refine ⟨fun lineage hmem => (halone lineage hmem).1,
      fun lineage hmem => (halone lineage hmem).2.1, fun lineage hmem => (halone lineage hmem).2.2,
      fun i j short long hij hi hj => ?_⟩
    by_contra hclash
    exact hfree ⟨i, j, short, long, hij, hi, hj, hclash⟩

/-- Every element name of the forest is spelled in one way. -/
def SpelledOnce (forest : List Node) : Prop :=
  ∃ spelling : String → String, ∀ lineage ∈ lineages forest,
    lineage.node.element = spelling (Text.lower lineage.node.element)

/-- Every node of a chain stands at the end of a shorter chain. -/
theorem exists_lineage_of_mem_nodes {forest : List Node} {lineage : Lineage}
    (hlineage : lineage ∈ lineages forest) {node : Node} (hnode : node ∈ lineage.nodes) :
    ∃ upper ∈ lineages forest, upper.node = node := by
  obtain ⟨above, last⟩ := lineage
  induction above using List.reverseRecOn generalizing last with
  | nil => exact ⟨_, hlineage, (List.mem_singleton.1 hnode).symm⟩
  | append_singleton above parent ih =>
    rcases List.mem_append.1 hnode with hupper | hlast
    · exact ih parent (parent_mem_lineages hlineage) hupper
    · exact ⟨_, hlineage, (List.mem_singleton.1 hlast).symm⟩

namespace Lineage

/-- The path of a lowered chain has the fragments of its path, lowered. -/
theorem fragments_path_lowered (lineage : Lineage) :
    lineage.lowered.path.fragments = lineage.path.fragments.map Fragment.lowered := by
  simp only [path, nodes_lowered, List.map_map]
  exact List.map_congr_left fun node _ => node.fragment_lowered

/-- A path is another one or ends it when its fragments end those of the other. -/
theorem path_eq_or_properSuffix_iff {short long : Lineage} :
    (short.path = long.path ∨ short.path.ProperSuffix long.path) ↔
      short.path.fragments <:+ long.path.fragments := by
  have hne : short.path.fragments ≠ [] := by simp [path, nodes]
  constructor
  · rintro (heq | ⟨_, hsuffix, _⟩)
    · exact heq ▸ List.suffix_refl _
    · exact hsuffix
  · intro hsuffix
    by_cases heq : short.path = long.path
    · exact Or.inl heq
    · exact Or.inr ⟨hne, hsuffix, heq⟩

end Lineage

/-- When every name is spelled in one way, the paths can be told from their lower case. -/
theorem SpelledOnce.exists_respelled {forest : List Node} (h : SpelledOnce forest) :
    ∃ respell : Fragment → Fragment, ∀ lineage ∈ lineages forest,
      lineage.path.fragments = lineage.lowered.path.fragments.map respell := by
  obtain ⟨spelling, hspelling⟩ := h
  refine ⟨fun fragment => { fragment with element := spelling fragment.element },
    fun lineage hlineage => ?_⟩
  rw [lineage.fragments_path_lowered, Lineage.path, List.map_map, List.map_map]
  refine List.map_congr_left fun node hnode => ?_
  obtain ⟨upper, hupper, rfl⟩ := exists_lineage_of_mem_nodes hlineage hnode
  have helement : upper.node.fragment.element =
      spelling (Text.lower upper.node.fragment.element) := hspelling upper hupper
  simp only [Function.comp_apply, Fragment.lowered, ← helement]

/-- Nodes that clash in one spelling clash in every other one that spells each name in one way. -/
theorem Recased.clashing {forest other : List Node} (h : Recased forest other)
    (honce : SpelledOnce other) (hclashing : Clashing forest) : Clashing other := by
  obtain ⟨i, j, short, long, hij, hi, hj, hclash⟩ := hclashing
  obtain ⟨upper, hupper, hshort⟩ := h.exists_twin hi
  obtain ⟨lower, hlower, hlong⟩ := h.exists_twin hj
  refine ⟨i, j, upper, lower, hij, hupper, hlower, fun hcompatible => hclash ?_⟩
  intro hpath hoverlap left right hleft hright
  refine hcompatible ?_ ?_ left right ?_ ?_
  · obtain ⟨respell, hrespell⟩ := honce.exists_respelled
    rw [Lineage.path_eq_or_properSuffix_iff] at hpath ⊢
    rw [hrespell upper (List.mem_of_getElem? hupper), hrespell lower (List.mem_of_getElem? hlower),
      hshort, hlong, Lineage.fragments_path_lowered, Lineage.fragments_path_lowered]
    exact (hpath.map Fragment.lowered).map respell
  · rwa [← upper.range_lowered, ← lower.range_lowered, hshort, hlong, short.range_lowered,
      long.range_lowered]
  · rw [Lineage.declarations_of_lowered hshort, hleft]
  · rw [Lineage.declarations_of_lowered hlong, hright]

/-- A class name does not depend on the case of element names. -/
theorem Recased.className {forest other : List Node} (h : Recased forest other)
    {P : Option String → Prop}
    (hclass : ∀ lineage ∈ lineages forest, P lineage.node.attributes.className) :
    ∀ lineage ∈ lineages other, P lineage.node.attributes.className := by
  intro lineage hmem
  obtain ⟨i, hi⟩ := List.mem_iff_getElem?.1 hmem
  obtain ⟨twin, htwin, hsame⟩ := h.symm.exists_twin hi
  rw [← Lineage.attributes_of_lowered hsame]
  exact hclass twin (List.mem_of_getElem? htwin)

/-- For a forest without subclasses, a change of case in its element names keeps whether it
compiles exactly when it keeps whether two of its nodes clash, unless a node is refused by itself.
What compiles with every name spelled in one way compiles in all spellings, since other spellings
only hide clashes; so nothing changes between two forests that spell every name in one way. -/
theorem Compiler.isOk_compile_recased_iff (compiler : Compiler) {forest recased : List Node}
    (hrecased : Recased forest recased)
    (hdots : ∀ lineage ∈ lineages forest, ∀ className,
      lineage.node.attributes.className = some className → '.' ∉ className.toList) :
    (((compiler.compile recased).1.isOk = true ↔ (compiler.compile forest).1.isOk = true) ↔
      (AllAcceptedAlone forest → (Clashing recased ↔ Clashing forest))) ∧
    (SpelledOnce recased → (compiler.compile recased).1.isOk = true →
      (compiler.compile forest).1.isOk = true) ∧
    (SpelledOnce forest → SpelledOnce recased →
      ((compiler.compile recased).1.isOk = true ↔ (compiler.compile forest).1.isOk = true)) := by
  have hdotsRecased := hrecased.className (P := fun name? => ∀ className,
    name? = some className → '.' ∉ className.toList) hdots
  rw [compiler.isOk_compile_iff forest hdots, compiler.isOk_compile_iff recased hdotsRecased,
    acceptable_iff, acceptable_iff, ← hrecased.allAcceptedAlone_iff]
  have hsame : ((AllAcceptedAlone forest ∧ ¬Clashing recased ↔
      AllAcceptedAlone forest ∧ ¬Clashing forest) ↔
      (AllAcceptedAlone forest → (Clashing recased ↔ Clashing forest))) := by
    rw [and_congr_right_iff, not_iff_not]
  refine ⟨hsame, fun honce hok => ?_, fun honce honceRecased => hsame.2 fun _ => ?_⟩
  · exact ⟨hok.1, fun hclashing => hok.2 (hrecased.clashing honce hclashing)⟩
  · exact ⟨hrecased.symm.clashing honce, hrecased.clashing honceRecased⟩

/-- A card compiles in capitals as it does in lower case. -/
theorem Compiler.card_compiles_in_capitals :
    let forest := [
      Node.mk "div" { className := "card" } "color: red;"
        [Node.mk "p" { minWidth := some 600 } "padding: 4px;" []],
      Node.mk "p" { maxWidth := some 599 } "padding: 8px; color: blue;" []]
    let recased := [
      Node.mk "DIV" { className := "card" } "color: red;"
        [Node.mk "P" { minWidth := some 600 } "padding: 4px;" []],
      Node.mk "P" { maxWidth := some 599 } "padding: 8px; color: blue;" []]
    Recased forest recased ∧
      (∀ lineage ∈ lineages forest, ∀ className,
        lineage.node.attributes.className = some className → '.' ∉ className.toList) ∧
      SpelledOnce forest ∧ SpelledOnce recased ∧
      (Compiler.new.compile forest).1.isOk = true ∧
      ((Compiler.new.compile recased).1.isOk = true ↔
        (Compiler.new.compile forest).1.isOk = true) := by
  intro forest recased
  have hdiv : Text.lower "div" = "div" ∧ Text.lower "DIV" = "div" := by decide
  have hp : Text.lower "p" = "p" ∧ Text.lower "P" = "p" := by decide
  have hrecased : Recased forest recased := by
    simp [Recased, forest, recased, Node.loweredAll, Node.lowered, hdiv, hp]
  have hdots : ∀ lineage ∈ lineages forest, ∀ className,
      lineage.node.attributes.className = some className → '.' ∉ className.toList := by
    simp [forest, lineages, Node.lineagesOfAll, Node.lineages, Node.attributes]
  have honce : SpelledOnce forest :=
    ⟨id, by simp [forest, lineages, Node.lineagesOfAll, Node.lineages, Node.element, hdiv, hp]⟩
  have honceRecased : SpelledOnce recased :=
    ⟨fun name => if name = "div" then "DIV" else "P", by
      simp [recased, lineages, Node.lineagesOfAll, Node.lineages, Node.element, hdiv, hp]⟩
  exact ⟨hrecased, hdots, honce, honceRecased, by decide +kernel,
    (Compiler.new.isOk_compile_recased_iff hrecased hdots).2.2 honce honceRecased⟩

/-- Two colors for one element are refused in one spelling and compile in two. -/
theorem Compiler.two_spellings_compile :
    let forest := [Node.mk "div" {} "color: red;" [], Node.mk "div" {} "color: blue;" []]
    let recased := [Node.mk "div" {} "color: red;" [], Node.mk "DIV" {} "color: blue;" []]
    Recased forest recased ∧
      (∀ lineage ∈ lineages forest, ∀ className,
        lineage.node.attributes.className = some className → '.' ∉ className.toList) ∧
      (Compiler.new.compile forest).1.isOk = false ∧
      (Compiler.new.compile recased).1.isOk = true := by
  intro forest recased
  have hdiv : Text.lower "DIV" = Text.lower "div" := by decide
  refine ⟨?_, ?_, by decide +kernel, by decide +kernel⟩
  · simp [Recased, forest, recased, Node.loweredAll, Node.lowered, hdiv]
  · simp [forest, lineages, Node.lineagesOfAll, Node.lineages, Node.attributes]

end StyleForest
