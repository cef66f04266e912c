import StyleForest.Proofs.Compatibility

/-!
# Reported conflicts

The check of a candidate against a control looks for a shared property first, then for a shorthand
of the candidate that resets a property of the control, and then for one of the control that resets
a property of the candidate. What it reports is the first finding in this order
(`Entry.conflict?_eq_some_iff`). The order decides which conflict is reported and which entry is at
fault, but not whether there is one: exchanging the two entries changes no acceptance
(`Entry.conflict?_eq_none_comm`).
-/

namespace StyleForest

/-- The name stands in the list, meets the condition, and no name before it does. -/
def IsFirst (P : String → Prop) (name : String) (names : List String) : Prop :=
  ∃ before after, names = before ++ name :: after ∧ P name ∧ ∀ earlier ∈ before, ¬P earlier

/-- The first name that meets a condition is the one that a test of it finds. -/
theorem isFirst_iff_find? {P : String → Prop} {test : String → Bool}
    (htest : ∀ name, test name = true ↔ P name) {name : String} {names : List String} :
    IsFirst P name names ↔ names.find? test = some name := by
  simp only [IsFirst, List.find?_eq_some_iff_append, Bool.not_eq_true', ← Bool.not_eq_true, htest]
  constructor
  · rintro ⟨before, after, hnames, hname, hbefore⟩
    exact ⟨hname, before, after, hnames, hbefore⟩
  · rintro ⟨hname, before, after, hnames, hbefore⟩
    exact ⟨before, after, hnames, hname, hbefore⟩

namespace Block

/-- The block declares the property in some letter case. -/
def HasProperty (block : Block) (property : String) : Prop :=
  ∃ declared ∈ block.properties, Text.sameName declared property = true

/-- Declaring the shorthand resets a property of the block. -/
def IsResetBy (block : Block) (shorthand : String) : Prop :=
  ∃ longhand ∈ block.properties, Property.resets shorthand longhand = true

/-- The shorthand is the first of its block that resets a property of the other block, and the
longhand is the first property that it resets there. -/
structure FirstReset (longhands shorthands : Block) (longhand shorthand : String) : Prop where
  firstShorthand : IsFirst longhands.IsResetBy shorthand shorthands.properties
  firstLonghand : IsFirst (Property.resets shorthand · = true) longhand longhands.properties

/-- Blocks are compatible when they share no property and neither resets a property of the other. -/
theorem compatible_iff {left right : Block} :
    left.Compatible right ↔
      (∀ property ∈ left.properties, ¬right.HasProperty property) ∧
      (∀ shorthand ∈ left.properties, ¬right.IsResetBy shorthand) ∧
      ∀ shorthand ∈ right.properties, ¬left.IsResetBy shorthand := by
  simp only [Compatible, Property.Collide, HasProperty, IsResetBy, not_or, not_exists, not_and]
  constructor
  · intro h
    exact ⟨fun p hp q hq => Text.sameName_comm q p ▸ (h p hp q hq).1,
      fun p hp q hq => (h p hp q hq).2.1, fun q hq p hp => (h p hp q hq).2.2⟩
  · rintro ⟨hshared, hleft, hright⟩ p hp q hq
    exact ⟨Text.sameName_comm q p ▸ hshared p hp q hq, hleft p hp q hq, hright q hq p hp⟩

end Block

namespace Entry

/-- What there is to report of a candidate that is checked against a control. -/
inductive Clash (path : Path) (control candidate : Entry) : StyleError → Prop
  /-- The candidate declares a property again, the first one of the control that it declares. -/
  | shared {property : String} :
      IsFirst candidate.block.HasProperty property control.block.properties →
      Clash path control candidate
        ⟨.overrideFound path.render property control.source, candidate.source⟩
  /-- No property is shared, but a shorthand of the candidate resets a longhand of the control. -/
  | candidateResets {longhand shorthand : String} :
      (∀ property ∈ control.block.properties, ¬candidate.block.HasProperty property) →
      control.block.FirstReset candidate.block longhand shorthand →
      Clash path control candidate
        ⟨.partialOverrideFound path.render longhand shorthand control.source, candidate.source⟩
  /-- No property is shared and no shorthand of the candidate resets anything, but a shorthand of
  the control resets a longhand of the candidate. -/
  | controlResets {longhand shorthand : String} :
      (∀ property ∈ control.block.properties, ¬candidate.block.HasProperty property) →
      (∀ shorthand ∈ candidate.block.properties, ¬control.block.IsResetBy shorthand) →
      candidate.block.FirstReset control.block longhand shorthand →
      Clash path control candidate
        ⟨.partialOverrideFound path.render longhand shorthand candidate.source, control.source⟩

section

variable {path : Path} {control candidate : Entry}

/-- The shared property that is found is the first one of the control that the candidate has. -/
theorem sharedProperty?_eq_some_iff {property : String} :
    sharedProperty? control candidate = some property ↔
      IsFirst candidate.block.HasProperty property control.block.properties :=
  (isFirst_iff_find? fun _ => Block.contains_eq_true_iff).symm

private theorem find?_resets_eq_none_iff {block : Block} {shorthand : String} :
    block.properties.find? (Property.resets shorthand) = none ↔ ¬block.IsResetBy shorthand := by
  simp only [List.find?_eq_none, Block.IsResetBy, not_exists, not_and]

/-- The search for a pair finds the first shorthand that resets anything, with the first longhand
that it resets. -/
theorem resetPair?_eq_some_iff {longhands shorthands : Entry} {longhand shorthand : String} :
    resetPair? longhands shorthands = some (longhand, shorthand) ↔
      longhands.block.FirstReset shorthands.block longhand shorthand := by
  simp only [resetPair?, List.findSome?_eq_some_iff, Option.map_eq_some_iff, Prod.mk.injEq,
    Option.map_eq_none_iff, find?_resets_eq_none_iff]
  constructor
  · rintro ⟨before, _, after, hnames, ⟨_, hfound, rfl, rfl⟩, hbefore⟩
    have hlonghand := (isFirst_iff_find? fun _ => Iff.rfl).2 hfound
    exact ⟨⟨before, after, hnames,
      ⟨_, List.mem_of_find?_eq_some hfound, List.find?_some hfound⟩, hbefore⟩, hlonghand⟩
  · rintro ⟨⟨before, after, hnames, _, hbefore⟩, hlonghand⟩
    exact ⟨before, shorthand, after, hnames,
      ⟨longhand, (isFirst_iff_find? fun _ => Iff.rfl).1 hlonghand, rfl, rfl⟩, hbefore⟩

/-- What the check reports is what there is to report of two entries that hold for a common
width. -/
theorem conflict?_eq_some_iff {error : StyleError} :
    control.conflict? path candidate = some error ↔
      control.breakpoint.overlaps candidate.breakpoint = true ∧
        Clash path control candidate error := by
  have hshared : sharedProperty? control candidate = none ↔
      ∀ property ∈ control.block.properties, ¬candidate.block.HasProperty property := by
    simp only [sharedProperty?_eq_none_iff, Block.HasProperty, not_exists, not_and]
  have hresets : resetPair? control candidate = none ↔
      ∀ shorthand ∈ candidate.block.properties, ¬control.block.IsResetBy shorthand := by
    simp only [resetPair?_eq_none_iff, Block.IsResetBy, not_exists, not_and]
  unfold conflict?
  split
  case isFalse hapart => simp [hapart]
  case isTrue hoverlap =>
    simp only [hoverlap, true_and, Option.or_eq_some_iff, Option.map_eq_some_iff,
      Option.or_eq_none_iff, Option.map_eq_none_iff, Prod.exists, sharedProperty?_eq_some_iff,
      resetPair?_eq_some_iff, hshared, hresets, resetError]
    constructor
    · rintro ((⟨property, hfirst, rfl⟩ | ⟨hnone, longhand, shorthand, hreset, rfl⟩) |
        ⟨⟨hnone, hfree⟩, longhand, shorthand, hreset, rfl⟩)
      · exact .shared hfirst
      · exact .candidateResets hnone hreset
      · exact .controlResets hnone hfree hreset
    · intro hclash
      cases hclash with
      | shared hfirst => exact Or.inl (Or.inl ⟨_, hfirst, rfl⟩)
      | candidateResets hnone hreset => exact Or.inl (Or.inr ⟨hnone, _, _, hreset, rfl⟩)
      | controlResets hnone hfree hreset => exact Or.inr ⟨⟨hnone, hfree⟩, _, _, hreset, rfl⟩

/-- Whether there is a conflict does not depend on which entry is the control. -/
theorem conflict?_eq_none_comm :
    control.conflict? path candidate = none ↔ candidate.conflict? path control = none := by
  rw [conflict?_eq_none_iff, conflict?_eq_none_iff]
  exact ⟨Compatible.symm, Compatible.symm⟩

end

/-- Two entries pass the check exactly when their ranges do not overlap or their blocks share no
property and neither resets a property of the other. They pass it in either order. What is reported
otherwise is the first property of the control that is shared, with the candidate at fault; if none
is shared, the first shorthand of the candidate that resets a property of the control, with the
candidate at fault; and if there is none either, the first shorthand of the control that resets a
property of the candidate, with the control at fault. -/
theorem conflict?_outcome (path : Path) (control candidate : Entry) :
    (control.conflict? path candidate = none ↔
      control.breakpoint.overlaps candidate.breakpoint = false ∨
        (∀ property ∈ control.block.properties, ¬candidate.block.HasProperty property) ∧
        (∀ shorthand ∈ control.block.properties, ¬candidate.block.IsResetBy shorthand) ∧
        ∀ shorthand ∈ candidate.block.properties, ¬control.block.IsResetBy shorthand) ∧
    (control.conflict? path candidate = none ↔ candidate.conflict? path control = none) ∧
    ∀ error, control.conflict? path candidate = some error ↔
      control.breakpoint.overlaps candidate.breakpoint = true ∧
        Clash path control candidate error := by
  refine ⟨?_, conflict?_eq_none_comm, fun error => conflict?_eq_some_iff⟩
  rw [conflict?_eq_none_iff, Compatible, Block.compatible_iff]
  cases control.breakpoint.overlaps candidate.breakpoint with
  | false => simp
  | true => simp

/-- Each of the two entries resets a property of the other: the shorthand of the candidate is
reported. -/
example :
    let control : Entry := ⟨⟨[{ property := "font", value := "1em serif" },
      { property := "Margin-Top", value := "0" }]⟩, .unbounded, some ⟨"a.css", 1, 1⟩⟩
    let candidate : Entry := ⟨⟨[{ property := "font-size", value := "2em" },
      { property := "margin", value := "4px" }]⟩, .unbounded, some ⟨"b.css", 2, 1⟩⟩
    control.conflict? (Path.root { element := "p" }) candidate =
      some ⟨.partialOverrideFound "p" "Margin-Top" "margin" control.source,
        candidate.source⟩ := by
  decide +kernel

end Entry

end StyleForest
