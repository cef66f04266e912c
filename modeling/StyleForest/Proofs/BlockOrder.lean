import StyleForest.Proofs.Merging

/-!
# Longhands and the shorthands after them

A shorthand sets its longhands anew, so a longhand that stands before it in a block has no effect.
A block that is read holds no such pair, because a push refuses the shorthand
(`Block.ordered_of_parse`). A merge appends the properties that are new to the block without
asking, so the blocks of a table stay in order through a compilation exactly when every block
that was merged into a copied entry spares the longhands of that entry.
-/

namespace StyleForest

/-- What is left of a list without its repetitions stands in the order of the list. -/
theorem eraseDups_sublist {α : Type} [BEq α] : ∀ list : List α, list.eraseDups.Sublist list
  | [] => by simp
  | a :: rest => by
    have hshorter : (rest.filter fun b => !b == a).length < rest.length + 1 :=
      Nat.lt_succ_of_le (List.length_filter_le ..)
    rw [List.eraseDups_cons]
    exact ((eraseDups_sublist _).trans List.filter_sublist).cons_cons a
termination_by list => list.length

namespace Block

/-- No property is followed by a shorthand that resets it. -/
def Ordered (block : Block) : Prop :=
  block.properties.Pairwise fun earlier later => Property.resets later earlier = false

instance (block : Block) : Decidable block.Ordered :=
  inferInstanceAs (Decidable (block.properties.Pairwise _))

/-- The order of a block, by the positions of its properties. -/
theorem ordered_iff_getElem? {block : Block} :
    block.Ordered ↔ ∀ (i j : Nat) (earlier later : String), i < j →
      block.properties[i]? = some earlier → block.properties[j]? = some later →
      Property.resets later earlier = false := by
  rw [Ordered, List.pairwise_iff_getElem]
  constructor
  · intro h i j earlier later hij hearlier hlater
    obtain ⟨hi, rfl⟩ := List.getElem?_eq_some_iff.1 hearlier
    obtain ⟨hj, rfl⟩ := List.getElem?_eq_some_iff.1 hlater
    exact h i j hi hj hij
  · intro h i j hi hj hij
    exact h i j _ _ hij (List.getElem?_eq_getElem hi) (List.getElem?_eq_getElem hj)

/-- A push appends no shorthand of a longhand that is declared. -/
theorem resets_eq_false_of_push {block pushed : Block} {declaration : Declaration}
    (h : block.push declaration = .ok pushed) {property : String}
    (hmem : property ∈ block.properties) :
    Property.resets declaration.property property = false := by
  obtain ⟨_, hfree, _⟩ := push_eq_ok_iff.1 h
  rw [Property.resets, List.any_eq_false]
  intro longhand hlonghand hsame
  have hcontains : block.contains longhand = true :=
    contains_eq_true_iff.2 ⟨property, hmem, Text.sameName_comm longhand property ▸ hsame⟩
  rw [hfree longhand hlonghand] at hcontains
  cases hcontains

/-- A block that is read holds no longhand before its shorthand. -/
theorem ordered_of_parse {text : String} {block : Block} (h : Block.parse text = .ok block) :
    block.Ordered := by
  refine parse_induction List.Pairwise.nil (fun {block pushed declaration} hpush hordered => ?_) h
  rw [Ordered, properties_of_push hpush, List.pairwise_append]
  refine ⟨hordered, List.pairwise_singleton .., fun earlier hearlier later hlater => ?_⟩
  rw [List.mem_singleton.1 hlater]
  exact resets_eq_false_of_push hpush hearlier

/-- The properties that the incoming block would add to the block reset none of those there. -/
def Spares (incoming block : Block) : Prop :=
  ∀ added ∈ incoming.properties, added ∉ block.properties →
    ∀ property ∈ block.properties, Property.resets added property = false

/-- Merging an ordered block gives an ordered block exactly when the block was ordered and its
longhands are spared. -/
theorem ordered_merge_iff {block incoming : Block} (hincoming : incoming.Ordered) :
    (block.merge incoming).Ordered ↔ block.Ordered ∧ incoming.Spares block := by
  have hadded (property : String) :
      property ∈ (incoming.properties.removeAll block.properties).eraseDups ↔
        property ∈ incoming.properties ∧ property ∉ block.properties := by
    rw [List.mem_eraseDups, List.removeAll, List.mem_filter]
    simp
  have hsublist : (incoming.properties.removeAll block.properties).eraseDups.Sublist
      incoming.properties :=
    (eraseDups_sublist _).trans List.filter_sublist
  rw [Ordered, properties_merge, List.pairwise_append]
  constructor
  · rintro ⟨hblock, _, hcross⟩
    exact ⟨hblock, fun added hmem hnew property hproperty =>
      hcross property hproperty added ((hadded added).2 ⟨hmem, hnew⟩)⟩
  · rintro ⟨hblock, hspares⟩
    refine ⟨hblock, hincoming.sublist hsublist, fun property hproperty added hmem => ?_⟩
    obtain ⟨hdeclared, hnew⟩ := (hadded added).1 hmem
    exact hspares added hdeclared hnew property hproperty

end Block

namespace EntryList

/-- The block of every entry is ordered. -/
def Ordered (list : EntryList) : Prop :=
  ∀ entry ∈ list.entries, entry.block.Ordered

/-- The block of the entry spares the longhands of the entry that a merge folds it into. -/
def SparedBy (list : EntryList) (entry : Entry) : Prop :=
  ∀ target, list.first? entry.breakpoint = some target → entry.block.Spares target.block

/-- The order of the blocks of a list is lost only by merging a block that does not spare the
longhands of its target. -/
theorem mergeLaw_ordered : MergeLaw Ordered SparedBy where
  single {entry} hread := by
    obtain ⟨text, hparse⟩ := hread
    intro other hother
    rw [List.mem_singleton.1 hother]
    exact Block.ordered_of_parse hparse
  clone := Iff.rfl
  push {list entry} hread _ := by
    obtain ⟨text, hparse⟩ := hread
    have hentry : entry.block.Ordered := Block.ordered_of_parse hparse
    simp only [Ordered, push, List.mem_append, List.mem_singleton]
    constructor
    · exact fun h other hother => h other (Or.inl hother)
    · rintro h other (hother | rfl)
      · exact h other hother
      · exact hentry
  merge {list entry} hread hrange := by
    obtain ⟨text, hparse⟩ := hread
    obtain ⟨before, target, after, _, hfirst, hsplit, _, hmodify⟩ :=
      exists_split_of_hasRange hrange
    have hmerged : (list.mergeAt entry.breakpoint entry.block).entries =
        before ++ { target with block := target.block.merge entry.block } :: after := hmodify _
    have hspared : list.SparedBy entry ↔ entry.block.Spares target.block := by
      simp only [SparedBy, hfirst, Option.some.injEq, forall_eq']
    rw [hspared, Ordered, Ordered, hmerged, hsplit]
    simp only [List.forall_mem_append, List.forall_mem_cons,
      Block.ordered_merge_iff (Block.ordered_of_parse hparse)]
    constructor
    · rintro ⟨hbefore, ⟨htarget, hspares⟩, hafter⟩
      exact ⟨⟨hbefore, htarget, hafter⟩, hspares⟩
    · rintro ⟨⟨hbefore, htarget, hafter⟩, hspares⟩
      exact ⟨hbefore, ⟨htarget, hspares⟩, hafter⟩

end EntryList

/-- After a compilation no block of the table holds a longhand before its shorthand exactly when
every block that was merged into a copied entry spared the longhands of that entry. -/
theorem Compiler.blocks_ordered_iff (compiler : Compiler) (forest : List Node) :
    (∀ (path : Path) (list : EntryList),
      (compiler.compile forest).2.table.get? path = some list → ∀ entry ∈ list.entries,
      ∀ (i j : Nat) (earlier later : String), i < j →
        entry.block.properties[i]? = some earlier → entry.block.properties[j]? = some later →
        Property.resets later earlier = false) ↔
      (Progress.start StyleTable.empty).AllMerges EntryList.SparedBy
        (Node.visitsOfAll none none forest) := by
  rw [compiler.table_compile, ← every_assembleForest_iff EntryList.mergeLaw_ordered]
  constructor
  · intro h path list found entry hmem
    exact Block.ordered_iff_getElem?.2 (h path list found entry hmem)
  · intro h path list found entry hmem
    exact Block.ordered_iff_getElem?.1 (h path list found entry hmem)

/-- A subclass pads a button whose base sets one side only. Compiling the two nodes succeeds, and
the merged block sets the side before the padding that resets it. -/
theorem Compiler.merged_padding_resets_side :
    let base := Node.mk "button" { className := "primary" } "padding-top: 4px;" []
    let sub := Node.mk "button" { className := "primary.large" } "padding: 8px;" []
    let path := Path.root { element := "button", className := "primary.large" }
    let compiled := Compiler.new.compile [base, sub]
    compiled.1.isOk = true ∧
      ∃ (list : EntryList) (entry : Entry), compiled.2.table.get? path = some list ∧
        entry ∈ list.entries ∧ entry.block.properties[0]? = some "padding-top" ∧
        entry.block.properties[1]? = some "padding" ∧
        Property.resets "padding" "padding-top" = true := by
  refine ⟨by decide +kernel,
    ⟨[⟨⟨[{ property := "padding-top", value := "4px" }, { property := "padding", value := "8px" }]⟩,
      ⟨0, none⟩, none⟩], true⟩,
    _, by decide +kernel, List.mem_singleton_self _, rfl, rfl, by decide +kernel⟩

end StyleForest
