import StyleForest.Forest.Compiler
import StyleForest.Proofs.Consistency
import StyleForest.Proofs.Grouping
import StyleForest.Proofs.Lineage

/-!
# Forests that compile

A forest without subclasses compiles exactly when every node is accepted on its own, no two nodes
of a chain declare a range, and the blocks of any two nodes are compatible whose selectors can
match one element at a common width (`Compiler.isOk_compile_iff`). The criterion speaks of pairs
of nodes only; the checks made while nodes are filed see the pairs under one path, and the check
of the finished table sees the pairs under different ones.
-/

namespace StyleForest

/-- A class name without a dot has no base class. -/
theorem Fragment.subclass?_eq_none {fragment : Fragment}
    (h : ∀ className, fragment.className = some className → '.' ∉ className.toList) :
    fragment.subclass? = none :=
  subclass?_eq_none_iff.2 h

namespace Lineage

/-- At most one node of the chain declares a range. -/
def DeclaresOnce (lineage : Lineage) : Prop :=
  lineage.nodes.countP (fun node => node.attributes.declaresBreakpoint) ≤ 1

/-- The node does not declare a range below a node that declares one. -/
def Unnested (lineage : Lineage) : Prop :=
  lineage.node.attributes.declaresBreakpoint = true →
    ∀ node ∈ lineage.above, ¬node.attributes.declaresBreakpoint = true

/-- The element of the node can use every property of the block that its text is. -/
def Holds (lineage : Lineage) (block : Block) : Prop :=
  Block.parse lineage.node.declarations = .ok block ∧
    ∀ property ∈ block.properties, Property.usableOn lineage.node.element property = true

/-- The range of a visit is the one of the chain, unless a scope is opened inside a scope. -/
theorem breakpoint_visit_eq_ok_iff {lineage : Lineage} {range : Breakpoint} :
    lineage.visit.breakpoint = .ok range ↔ lineage.Unnested ∧ range = lineage.range := by
  have hvisit : lineage.visit.attributes = lineage.node.attributes := rfl
  have hscope : lineage.visit.scope = (standing lineage.above).scope := rfl
  have hrange : lineage.range = (lineage.node.attributes.breakpoint?.or
      ((standing lineage.above).scope.map Scope.breakpoint)).getD Breakpoint.unbounded := by
    rw [Lineage.range, nodes, List.reverse_append, scope_standing, List.reverse_singleton,
      List.singleton_append, List.findSome?_cons]
    cases lineage.node.attributes.breakpoint? with
    | none => rfl
    | some own => rfl
  rw [Visit.breakpoint_eq_ok_iff, hvisit, hscope, ← hrange, scope_standing_eq_none_iff,
    Attributes.breakpoint?_eq_none_iff, Unnested, Decidable.imp_iff_not_or]

/-- The node of a chain is read into an entry when it is accepted where it stands. -/
theorem reads_visit_iff {lineage : Lineage} {entry : Entry} :
    lineage.visit.Reads entry ↔
      lineage.node.attributes.validate = .ok () ∧ lineage.Unnested ∧ lineage.Holds entry.block ∧
        entry.breakpoint = lineage.range ∧ entry.source = lineage.node.attributes.source := by
  constructor
  · rintro ⟨hvalid, hbreakpoint, hblock, hsource⟩
    obtain ⟨hunnested, hrange⟩ := breakpoint_visit_eq_ok_iff.1 hbreakpoint
    exact ⟨hvalid, hunnested, readBlock_eq_ok_iff.1 hblock, hrange, hsource⟩
  · rintro ⟨hvalid, hunnested, hholds, hrange, hsource⟩
    exact ⟨hvalid, breakpoint_visit_eq_ok_iff.2 ⟨hunnested, hrange⟩,
      readBlock_eq_ok_iff.2 hholds, hsource⟩

end Lineage

/-- At most one node of every chain declares a range exactly when no node that declares one
stands below another. -/
theorem forall_declaresOnce_iff {forest : List Node} :
    (∀ lineage ∈ lineages forest, lineage.DeclaresOnce) ↔
      ∀ lineage ∈ lineages forest, lineage.Unnested := by
  constructor
  · rintro h ⟨above, node⟩ hmem hdeclares
    have honce := h _ hmem
    rw [Lineage.DeclaresOnce, Lineage.nodes, List.countP_append, List.countP_singleton,
      if_pos hdeclares] at honce
    exact List.countP_eq_zero.1 (by omega)
  · rintro h ⟨above, node⟩ hmem
    -- A chain gains at most the range of its last node, and only when it had none before.
    induction above using List.reverseRecOn generalizing node with
    | nil => exact List.countP_le_length
    | append_singleton above parent ih =>
      have honce : (above ++ [parent]).countP
          (fun node => node.attributes.declaresBreakpoint) ≤ 1 :=
        ih parent (parent_mem_lineages hmem)
      rw [Lineage.DeclaresOnce, Lineage.nodes, List.countP_append, List.countP_singleton]
      by_cases hdeclares : node.attributes.declaresBreakpoint = true
      · have hnone := List.countP_eq_zero.2 (h _ hmem hdeclares)
        rw [hnone, if_pos hdeclares]
      · rw [if_neg hdeclares]
        exact honce

/-- Any two placed entries are compatible when the path of the one is the path of the other or
ends it. -/
def PairwiseCompatible (placed : List (Path × Entry)) : Prop :=
  ∀ (i j : Nat) (short long : Path × Entry), i ≠ j → placed[i]? = some short →
    placed[j]? = some long → (short.1 = long.1 ∨ short.1.ProperSuffix long.1) →
    short.2.Compatible long.2

/-- The check of a grouped table finds nothing exactly when the entries of a path are compatible
with those of each longer path that ends in it. -/
theorem StyleTable.inconsistency?_eq_none_iff_of_grouped {table : StyleTable}
    {placed : List (Path × Entry)} (h : table.toList = grouped placed) :
    table.inconsistency? = none ↔
      ∀ short ∈ placed, ∀ long ∈ placed, short.1.ProperSuffix long.1 →
        short.2.Compatible long.2 := by
  rw [inconsistency?_eq_scan?, scan?_eq_none_iff]
  simp only [Entry.conflict?_eq_none_iff]
  constructor
  · rintro hscan ⟨short, control⟩ hshort ⟨long, candidate⟩ hlong hsuffix
    have found {path : Path} {entry : Entry} (hmem : (path, entry) ∈ placed) :
        table.get? path = some ⟨entriesAt placed path, false⟩ := by
      rw [get?_of_grouped h, if_pos (List.mem_map_of_mem hmem)]
    exact hscan short long _ _ (found hshort) (found hlong) hsuffix control
      (mem_entriesAt_iff.2 hshort) candidate (mem_entriesAt_iff.2 hlong)
  · intro hpairs short long shortList longList hshort hlong hsuffix control hcontrol candidate
      hcandidate
    have placed_of_mem {path : Path} {list : EntryList} {entry : Entry}
        (hget : table.get? path = some list) (hmem : entry ∈ list.entries) :
        (path, entry) ∈ placed := by
      rw [get?_of_grouped h] at hget
      split at hget
      · cases hget
        exact mem_entriesAt_iff.1 hmem
      · cases hget
    exact hpairs _ (placed_of_mem hshort hcontrol) _ (placed_of_mem hlong hcandidate) hsuffix

/-- The pairs under one path and the pairs under a path and a longer one are all the pairs that
have to be compatible. -/
theorem pairwiseCompatible_iff {placed : List (Path × Entry)} :
    PairwiseCompatible placed ↔
      placed.Pairwise StyleTable.SamePathCompatible ∧
        ∀ short ∈ placed, ∀ long ∈ placed, short.1.ProperSuffix long.1 →
          short.2.Compatible long.2 := by
  rw [pairwise_iff_getElem?_of_symm StyleTable.SamePathCompatible.symm]
  constructor
  · intro h
    refine ⟨fun i j short long hij hi hj hpath => h i j short long hij hi hj (Or.inl hpath), ?_⟩
    intro short hshort long hlong hsuffix
    obtain ⟨i, hi⟩ := List.mem_iff_getElem?.1 hshort
    obtain ⟨j, hj⟩ := List.mem_iff_getElem?.1 hlong
    refine h i j short long ?_ hi hj (Or.inr hsuffix)
    rintro rfl
    rw [hi, Option.some.injEq] at hj
    exact hsuffix.2.2 (congrArg Prod.fst hj)
  · rintro ⟨hsame, hlonger⟩ i j short long hij hi hj (hpath | hsuffix)
    · exact hsame i j short long hij hi hj hpath
    · exact hlonger short (List.mem_of_getElem? hi) long (List.mem_of_getElem? hj) hsuffix

/-- When the path of the one node is the path of the other or ends it and their ranges overlap,
the blocks of the two nodes are compatible. -/
def Lineage.CompatibleWith (short long : Lineage) : Prop :=
  (short.path = long.path ∨ short.path.ProperSuffix long.path) →
    short.range.overlaps long.range = true →
    ∀ left right : Block, Block.parse short.node.declarations = .ok left →
      Block.parse long.node.declarations = .ok right → left.Compatible right

/-- What is asked of a forest: of every node, of every chain, and of every two nodes whose
selectors can match one element. -/
structure Acceptable (forest : List Node) : Prop where
  /-- The attributes of every node are valid. -/
  attributes : ∀ lineage ∈ lineages forest, lineage.node.attributes.validate = .ok ()
  /-- At most one node of every chain declares a range. -/
  scopes : ∀ lineage ∈ lineages forest, lineage.DeclaresOnce
  /-- The text of every node is a block that its element can use. -/
  blocks : ∀ lineage ∈ lineages forest, ∃ block, lineage.Holds block
  /-- Any two nodes at different places of the forest are compatible. -/
  compatible : ∀ (i j : Nat) (short long : Lineage), i ≠ j →
    (lineages forest)[i]? = some short → (lineages forest)[j]? = some long →
    short.CompatibleWith long

/-- The row is what the node of the chain is read into, under the path of the chain. -/
def Lineage.ReadAs (lineage : Lineage) (row : Path × Entry) : Prop :=
  Progress.ReadAs lineage.visit row

/-- A node is read as a row by its path, the checks of its attributes and its scope, and the block,
range and source that it declares. -/
theorem Lineage.readAs_iff {lineage : Lineage} {row : Path × Entry} :
    lineage.ReadAs row ↔
      row.1 = lineage.path ∧ lineage.node.attributes.validate = .ok () ∧ lineage.Unnested ∧
        lineage.Holds row.2.block ∧ row.2.breakpoint = lineage.range ∧
        row.2.source = lineage.node.attributes.source := by
  rw [ReadAs, Progress.ReadAs, lineage.path_visit, reads_visit_iff]

/-- Two nodes are compatible when the entries that they are read into are. -/
theorem Lineage.ReadAs.compatibleWith_iff {upper lower : Lineage} {short long : Path × Entry}
    (hupper : upper.ReadAs short) (hlower : lower.ReadAs long) :
    upper.CompatibleWith lower ↔
      ((short.1 = long.1 ∨ short.1.ProperSuffix long.1) → short.2.Compatible long.2) := by
  obtain ⟨hshortPath, _, _, hshort, hshortRange, _⟩ := readAs_iff.1 hupper
  obtain ⟨hlongPath, _, _, hlong, hlongRange, _⟩ := readAs_iff.1 hlower
  rw [CompatibleWith, hshortPath, hlongPath, Entry.Compatible, hshortRange, hlongRange]
  constructor
  · intro h hpath hoverlap
    exact h hpath hoverlap _ _ hshort.1 hlong.1
  · intro h hpath hoverlap left right hleft hright
    have hleftBlock : left = short.2.block := Except.ok.inj (hleft.symm.trans hshort.1)
    have hrightBlock : right = long.2.block := Except.ok.inj (hright.symm.trans hlong.1)
    rw [hleftBlock, hrightBlock]
    exact h hpath hoverlap

/-- Assembling and checking a forest without subclasses succeeds exactly when every node can be
read into an entry and these entries are compatible. -/
theorem assembleForest_consistent_iff {forest : List Node}
    (hplain : ∀ lineage ∈ lineages forest, lineage.node.fragment.subclass? = none) :
    (assembleForest forest).failure = none ∧
        (assembleForest forest).table.inconsistency? = none ↔
      ∃ placed, (lineages forest).Forall₂ Lineage.ReadAs placed ∧ PairwiseCompatible placed := by
  have hvisits : ∀ visit ∈ Node.visitsOfAll none none forest, visit.fragment.subclass? = none :=
    (forall_fragment_visitsOfAll_iff fun fragment => fragment.subclass? = none).2 hplain
  have hread (placed : List (Path × Entry)) :
      (Node.visitsOfAll none none forest).Forall₂ Progress.ReadAs placed ↔
        (lineages forest).Forall₂ Lineage.ReadAs placed := by
    rw [visitsOfAll_eq_map, List.forall₂_map_left_iff]
    rfl
  constructor
  · rintro ⟨hend, hcheck⟩
    obtain ⟨placed, hreads, hsame, hrows⟩ :=
      (assembleForest_eq_grouped_iff hvisits).1 ⟨hend, rfl⟩
    have hlonger := (StyleTable.inconsistency?_eq_none_iff_of_grouped hrows).1 hcheck
    exact ⟨placed, (hread placed).1 hreads, pairwiseCompatible_iff.2 ⟨hsame, hlonger⟩⟩
  · rintro ⟨placed, hreads, hpairs⟩
    obtain ⟨hsame, hlonger⟩ := pairwiseCompatible_iff.1 hpairs
    obtain ⟨hend, hrows⟩ := (assembleForest_eq_grouped_iff hvisits).2
      ⟨placed, (hread placed).2 hreads, hsame, rfl⟩
    exact ⟨hend, (StyleTable.inconsistency?_eq_none_iff_of_grouped hrows).2 hlonger⟩

private theorem exists_of_forall₂ {α β : Type} {R : α → β → Prop} {left : List α} {right : List β}
    (h : left.Forall₂ R right) {i : Nat} {a : α} (ha : left[i]? = some a) :
    ∃ b, right[i]? = some b ∧ R a b := by
  induction h generalizing i with
  | nil => simp at ha
  | @cons first image _ _ hfirst _ ih =>
    cases i with
    | zero =>
      cases ha
      exact ⟨image, rfl, hfirst⟩
    | succ i => exact ih ha

private theorem exists_forall₂ {α β : Type} {R : α → β → Prop} {left : List α}
    (h : ∀ a ∈ left, ∃ b, R a b) : ∃ right, left.Forall₂ R right := by
  induction left with
  | nil => exact ⟨[], .nil⟩
  | cons a rest ih =>
    obtain ⟨b, hb⟩ := h a List.mem_cons_self
    obtain ⟨right, hright⟩ := ih fun c hc => h c (List.mem_cons_of_mem a hc)
    exact ⟨b :: right, .cons hb hright⟩

/-- The nodes of an acceptable forest are read into compatible entries. -/
theorem Acceptable.exists_placed {forest : List Node} (h : Acceptable forest) :
    ∃ placed, (lineages forest).Forall₂ Lineage.ReadAs placed ∧ PairwiseCompatible placed := by
  have hunnested := forall_declaresOnce_iff.1 h.scopes
  have hread : ∀ lineage ∈ lineages forest, ∃ row, lineage.ReadAs row := by
    intro lineage hmem
    obtain ⟨block, hholds⟩ := h.blocks lineage hmem
    exact ⟨(lineage.path, ⟨block, lineage.range, lineage.node.attributes.source⟩),
      Lineage.readAs_iff.2
        ⟨rfl, h.attributes lineage hmem, hunnested lineage hmem, hholds, rfl, rfl⟩⟩
  obtain ⟨placed, hreads⟩ := exists_forall₂ hread
  refine ⟨placed, hreads, fun i j short long hij hi hj => ?_⟩
  obtain ⟨upper, hupper, hshort⟩ := exists_of_forall₂ hreads.flip hi
  obtain ⟨lower, hlower, hlong⟩ := exists_of_forall₂ hreads.flip hj
  exact (Lineage.ReadAs.compatibleWith_iff hshort hlong).1
    (h.compatible i j upper lower hij hupper hlower)

/-- A forest whose nodes are read into compatible entries is acceptable. -/
theorem acceptable_of_placed {forest : List Node} {placed : List (Path × Entry)}
    (hreads : (lineages forest).Forall₂ Lineage.ReadAs placed)
    (hpairs : PairwiseCompatible placed) : Acceptable forest := by
  have hread (lineage : Lineage) (hmem : lineage ∈ lineages forest) :
      ∃ row, lineage.ReadAs row := by
    obtain ⟨i, hi⟩ := List.mem_iff_getElem?.1 hmem
    obtain ⟨row, _, hrow⟩ := exists_of_forall₂ hreads hi
    exact ⟨row, hrow⟩
  refine ⟨fun lineage hmem => ?_, forall_declaresOnce_iff.2 fun lineage hmem => ?_,
    fun lineage hmem => ?_, fun i j upper lower hij hi hj => ?_⟩
  · obtain ⟨_, hrow⟩ := hread lineage hmem
    exact (Lineage.readAs_iff.1 hrow).2.1
  · obtain ⟨_, hrow⟩ := hread lineage hmem
    exact (Lineage.readAs_iff.1 hrow).2.2.1
  · obtain ⟨row, hrow⟩ := hread lineage hmem
    exact ⟨row.2.block, (Lineage.readAs_iff.1 hrow).2.2.2.1⟩
  · obtain ⟨short, hshort, hupper⟩ := exists_of_forall₂ hreads hi
    obtain ⟨long, hlong, hlower⟩ := exists_of_forall₂ hreads hj
    exact (hupper.compatibleWith_iff hlower).2 (hpairs i j short long hij hshort hlong)

/-- A run finishes with a stylesheet when it has not failed and its table is consistent. -/
theorem Progress.isOk_finish_iff {progress : Progress} :
    progress.finish.isOk = true ↔
      progress.failure = none ∧ progress.table.inconsistency? = none := by
  unfold finish
  rw [← Option.or_eq_none_iff]
  cases progress.failure.or progress.table.inconsistency? with
  | none => simp [Except.isOk, Except.toBool]
  | some error => simp [Except.isOk, Except.toBool]

/-- A compiler gives the stylesheet that the forest has by itself. -/
theorem Compiler.fst_compile (compiler : Compiler) (forest : List Node) :
    (compiler.compile forest).1 = StyleForest.compile forest := by
  simp only [Compiler.compile, extend]
  split
  · next heq => exact heq.symm
  · next heq => exact heq.symm

/-- A forest whose class names have no dots compiles exactly when it is acceptable, whatever the
compiler has compiled before. -/
theorem Compiler.isOk_compile_iff (compiler : Compiler) (forest : List Node)
    (hdots : ∀ lineage ∈ lineages forest, ∀ className,
      lineage.node.attributes.className = some className → '.' ∉ className.toList) :
    (compiler.compile forest).1.isOk = true ↔ Acceptable forest := by
  have hplain : ∀ lineage ∈ lineages forest, lineage.node.fragment.subclass? = none :=
    fun lineage hmem => Fragment.subclass?_eq_none (hdots lineage hmem)
  rw [compiler.fst_compile, StyleForest.compile, Progress.isOk_finish_iff,
    assembleForest_consistent_iff hplain]
  constructor
  · rintro ⟨placed, hreads, hpairs⟩
    exact acceptable_of_placed hreads hpairs
  · exact Acceptable.exists_placed

/-- A card with a paragraph that is padded on wide viewports, and a paragraph on its own that is
padded on narrow ones. -/
theorem Compiler.acceptable_card :
    let forest := [
      Node.mk "div" { className := "card" } "color: red;"
        [Node.mk "p" { minWidth := some 600 } "padding: 4px;" []],
      Node.mk "p" { maxWidth := some 599 } "padding: 8px; color: blue;" []]
    (∀ lineage ∈ lineages forest, ∀ className,
      lineage.node.attributes.className = some className → '.' ∉ className.toList) ∧
      (Compiler.new.compile forest).1.isOk = true ∧ Acceptable forest := by
  intro forest
  have hdots : ∀ lineage ∈ lineages forest, ∀ className,
      lineage.node.attributes.className = some className → '.' ∉ className.toList := by
    simp [forest, lineages, Node.lineagesOfAll, Node.lineages, Node.attributes]
  have hok : (Compiler.new.compile forest).1.isOk = true := by decide +kernel
  exact ⟨hdots, hok, (Compiler.new.isOk_compile_iff forest hdots).1 hok⟩

end StyleForest
