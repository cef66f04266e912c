import Mathlib.Logic.Basic
import StyleForest.Table.Conflict

/-!
# Compatible entries

Two properties collide when they are one property or when one of them resets the other. Entries
are compatible when their ranges do not overlap or no property of one collides with a property
of the other. This is a symmetric condition on the two entries, while the check that finds a
conflict looks at them in a fixed order; the check finds nothing exactly when the entries are
compatible (`Entry.conflict?_eq_none_iff`).
-/

namespace StyleForest

/-- Declaring one of the properties overrides the other one. -/
def Property.Collide (left right : String) : Prop :=
  Text.sameName left right = true ∨ Property.resets left right = true ∨
    Property.resets right left = true

instance (left right : String) : Decidable (Property.Collide left right) :=
  inferInstanceAs (Decidable (_ ∨ _))

/-- Colliding does not depend on the order of the names. -/
theorem Property.Collide.symm {left right : String} (h : Property.Collide left right) :
    Property.Collide right left := by
  rcases h with same | resets | resets
  · exact Or.inl (Text.sameName_comm left right ▸ same)
  · exact Or.inr (Or.inr resets)
  · exact Or.inr (Or.inl resets)

/-- No property of one block collides with a property of the other. -/
def Block.Compatible (left right : Block) : Prop :=
  ∀ p ∈ left.properties, ∀ q ∈ right.properties, ¬Property.Collide p q

instance : DecidableRel Block.Compatible := fun left right =>
  inferInstanceAs (Decidable (∀ p ∈ left.properties, ∀ q ∈ right.properties, _))

/-- Compatibility does not depend on the order of the blocks. -/
theorem Block.Compatible.symm {left right : Block} (h : left.Compatible right) :
    right.Compatible left :=
  fun p hp q hq hcollide => h q hq p hp hcollide.symm

/-- Entries that hold for a common width have compatible blocks. -/
def Entry.Compatible (left right : Entry) : Prop :=
  left.breakpoint.overlaps right.breakpoint = true → left.block.Compatible right.block

instance : DecidableRel Entry.Compatible := fun left right =>
  inferInstanceAs (Decidable (_ → left.block.Compatible right.block))

/-- Compatibility does not depend on the order of the entries. -/
theorem Entry.Compatible.symm {left right : Entry} (h : left.Compatible right) :
    right.Compatible left :=
  fun hoverlap => (h (Breakpoint.overlaps_comm .. ▸ hoverlap)).symm

/-- Any two entries of the list are compatible. -/
def EntryList.Compatible (list : EntryList) : Prop :=
  list.entries.Pairwise Entry.Compatible

instance (list : EntryList) : Decidable list.Compatible :=
  inferInstanceAs (Decidable (list.entries.Pairwise Entry.Compatible))

/-- A block contains a property when one of its properties has that name in some letter case. -/
theorem Block.contains_eq_true_iff {block : Block} {property : String} :
    block.contains property = true ↔ ∃ q ∈ block.properties, Text.sameName q property = true := by
  simp only [Block.contains, Block.get?, Block.properties, List.find?_isSome, List.mem_map,
    exists_exists_and_eq_and]

namespace Entry

/-- No property is shared exactly when no two names of the entries are the same. -/
theorem sharedProperty?_eq_none_iff {control candidate : Entry} :
    sharedProperty? control candidate = none ↔
      ∀ p ∈ control.block.properties, ∀ q ∈ candidate.block.properties,
        ¬Text.sameName q p = true := by
  simp only [sharedProperty?, List.find?_eq_none, Block.contains_eq_true_iff, not_exists, not_and]

/-- No shorthand resets a longhand exactly when none of the names of the entries does. -/
theorem resetPair?_eq_none_iff {longhands shorthands : Entry} :
    resetPair? longhands shorthands = none ↔
      ∀ p ∈ shorthands.block.properties, ∀ q ∈ longhands.block.properties,
        ¬Property.resets p q = true := by
  simp only [resetPair?, List.findSome?_eq_none_iff, Option.map_eq_none_iff, List.find?_eq_none]

/-- The check of a candidate against a control finds a conflict unless they are compatible. -/
theorem conflict?_eq_none_iff {path : Path} {control candidate : Entry} :
    control.conflict? path candidate = none ↔ control.Compatible candidate := by
  unfold conflict? Compatible
  split
  · next hoverlap =>
    simp only [hoverlap, true_imp_iff, Option.or_eq_none_iff, Option.map_eq_none_iff,
      sharedProperty?_eq_none_iff, resetPair?_eq_none_iff]
    constructor
    · rintro ⟨⟨shared, candidateResets⟩, controlResets⟩ p hp q hq (same | resets | resets)
      · exact shared p hp q hq (Text.sameName_comm p q ▸ same)
      · exact controlResets p hp q hq resets
      · exact candidateResets q hq p hp resets
    · intro h
      refine ⟨⟨?_, ?_⟩, ?_⟩
      · exact fun p hp q hq same => h p hp q hq (Or.inl (Text.sameName_comm q p ▸ same))
      · exact fun q hq p hp resets => h p hp q hq (Or.inr (Or.inr resets))
      · exact fun p hp q hq resets => h p hp q hq (Or.inr (Or.inl resets))
  · next hoverlap => simp [hoverlap]

end Entry

/-- A symmetric relation holds pairwise when it holds between any two different positions. -/
theorem pairwise_iff_getElem?_of_symm {α : Type} {R : α → α → Prop} {list : List α}
    (hsymm : ∀ {a b : α}, R a b → R b a) :
    list.Pairwise R ↔ ∀ (i j : Nat) (a b : α), i ≠ j → list[i]? = some a → list[j]? = some b →
      R a b := by
  rw [List.pairwise_iff_getElem]
  constructor
  · intro h i j a b hij ha hb
    obtain ⟨hi, rfl⟩ := List.getElem?_eq_some_iff.1 ha
    obtain ⟨hj, rfl⟩ := List.getElem?_eq_some_iff.1 hb
    rcases Nat.lt_or_gt_of_ne hij with hlt | hgt
    · exact h i j hi hj hlt
    · exact hsymm (h j i hj hi hgt)
  · intro h i j hi hj hij
    exact h i j _ _ (Nat.ne_of_lt hij) (List.getElem?_eq_getElem hi) (List.getElem?_eq_getElem hj)

namespace EntryList

/-- Compatibility of a list, by the positions of its entries. -/
theorem compatible_iff_getElem? {list : EntryList} :
    list.Compatible ↔ ∀ (i j : Nat) (left right : Entry), i ≠ j → list.entries[i]? = some left →
      list.entries[j]? = some right → left.Compatible right :=
  pairwise_iff_getElem?_of_symm Entry.Compatible.symm

/-- A single entry has nothing to conflict with. -/
theorem compatible_single (entry : Entry) : (single entry).Compatible :=
  List.pairwise_singleton ..

/-- A copy is compatible when its original is. -/
@[simp] theorem compatible_clone {list : EntryList} : list.clone.Compatible ↔ list.Compatible :=
  Iff.rfl

/-- Appending an entry that is compatible with all others keeps the list compatible. -/
theorem compatible_push_iff {list : EntryList} {entry : Entry} :
    (list.push entry).Compatible ↔
      list.Compatible ∧ ∀ existing ∈ list.entries, existing.Compatible entry := by
  simp [Compatible, push, List.pairwise_append]

end EntryList

end StyleForest
