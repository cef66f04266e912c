import Mathlib.Data.List.Pairwise
import StyleForest.Proofs.Compatibility

/-!
# Crossing shorthands

The footprint of a property is what it sets: the property itself and its longhands. Two properties
with a common longhand collide in most cases, because one of them is listed for the other one. The
exceptions are the shorthands for one side and for one aspect of a border, and the shorthand for a
grid area with those for rows and columns: they set common longhands, but neither is listed for the
other (`Property.crossings`). So entries that pass the check set no longhand in common, directly or
through shorthands, unless they declare such a pair
(`Entry.disjoint_footprints_iff`).
-/

namespace StyleForest

namespace Property

/-- The property in lower case and the longhands that it sets. -/
def footprint (property : String) : List String :=
  Text.lower property :: longhands property

/-- The pairs of shorthands that set a common longhand although neither is listed for the other. -/
def crossings : List (String × String) :=
  [("border-top", "border-width"), ("border-top", "border-style"), ("border-top", "border-color"),
   ("border-right", "border-width"), ("border-right", "border-style"),
   ("border-right", "border-color"),
   ("border-bottom", "border-width"), ("border-bottom", "border-style"),
   ("border-bottom", "border-color"),
   ("border-left", "border-width"), ("border-left", "border-style"),
   ("border-left", "border-color"),
   ("grid-area", "grid-row"), ("grid-area", "grid-column")]

/-- The two properties are such a pair, in either order and any letter case. -/
def Cross (left right : String) : Prop :=
  (Text.lower left, Text.lower right) ∈ crossings ∨ (Text.lower right, Text.lower left) ∈ crossings

instance (left right : String) : Decidable (Cross left right) :=
  inferInstanceAs (Decidable (_ ∨ _))

/-- Two rows of the table with a common longhand are one row, or the shorthand of one is listed in
the other one, or their shorthands cross. -/
def RowsAgree (row other : String × List String) : Prop :=
  (∃ longhand ∈ row.2, longhand ∈ other.2) →
    row.1 = other.1 ∨ other.1 ∈ row.2 ∨ row.1 ∈ other.2 ∨
      (row.1, other.1) ∈ crossings ∨ (other.1, row.1) ∈ crossings

instance (row other : String × List String) : Decidable (RowsAgree row other) :=
  inferInstanceAs (Decidable (_ → _))

instance : Std.Symm RowsAgree where
  symm row other h := by
    rintro ⟨longhand, hother, hrow⟩
    rcases h ⟨longhand, hrow, hother⟩ with hsame | hlisted | hlisted | hcross | hcross
    · exact Or.inl hsame.symm
    · exact Or.inr (Or.inr (Or.inl hlisted))
    · exact Or.inr (Or.inl hlisted)
    · exact Or.inr (Or.inr (Or.inr (Or.inr hcross)))
    · exact Or.inr (Or.inr (Or.inr (Or.inl hcross)))

private theorem pairwise_rowsAgree : shorthands.Pairwise RowsAgree := by
  decide +kernel

private theorem rowsAgree {row other : String × List String} (hrow : row ∈ shorthands)
    (hother : other ∈ shorthands) : RowsAgree row other :=
  pairwise_rowsAgree.forall_of_forall (fun _ _ _ => Or.inl rfl) hrow hother

/-- Two shorthands that cross have a longhand in common. -/
theorem exists_common_of_mem_crossings :
    ∀ pair ∈ crossings, ∃ longhand ∈ (shorthands.lookup pair.1).getD [],
      longhand ∈ (shorthands.lookup pair.2).getD [] := by
  decide +kernel

/-- A property with longhands is a shorthand of the table. -/
theorem mem_shorthands_of_mem_longhands {property longhand : String}
    (h : longhand ∈ longhands property) :
    (Text.lower property, longhands property) ∈ shorthands := by
  unfold longhands at h ⊢
  cases hrow : shorthands.lookup (Text.lower property) with
  | none =>
    rw [hrow] at h
    cases h
  | some listed =>
    obtain ⟨before, after, hsplit, _⟩ := List.lookup_eq_some_iff.1 hrow
    rw [hsplit]
    exact List.mem_append_right _ List.mem_cons_self

/-- A shorthand resets every longhand of its row, however it is spelled. -/
theorem resets_of_lower_mem {shorthand property : String}
    (h : Text.lower property ∈ longhands shorthand) : resets shorthand property = true :=
  List.any_eq_true.2 ⟨_, h, Text.sameName_iff.2 (Text.lower_lower property)⟩

/-- Properties that set a longhand in common collide or cross. -/
theorem collide_or_cross {left right name : String} (hleft : name ∈ footprint left)
    (hright : name ∈ footprint right) : Collide left right ∨ Cross left right := by
  rcases List.mem_cons.1 hleft with rfl | hleft
  · rcases List.mem_cons.1 hright with hsame | hright
    · exact Or.inl (Or.inl (Text.sameName_iff.2 hsame))
    · exact Or.inl (Or.inr (Or.inr (resets_of_lower_mem hright)))
  · rcases List.mem_cons.1 hright with rfl | hright
    · exact Or.inl (Or.inr (Or.inl (resets_of_lower_mem hleft)))
    · rcases rowsAgree (mem_shorthands_of_mem_longhands hleft)
        (mem_shorthands_of_mem_longhands hright) ⟨name, hleft, hright⟩ with
        hsame | hlisted | hlisted | hcross
      · exact Or.inl (Or.inl (Text.sameName_iff.2 hsame))
      · exact Or.inl (Or.inr (Or.inl (resets_of_lower_mem hlisted)))
      · exact Or.inl (Or.inr (Or.inr (resets_of_lower_mem hlisted)))
      · exact Or.inr hcross

/-- Properties that cross set a longhand in common. -/
theorem Cross.exists_mem_footprint {left right : String} (h : Cross left right) :
    ∃ name ∈ footprint left, name ∈ footprint right := by
  rcases h with hcross | hcross
  · obtain ⟨longhand, hleft, hright⟩ := exists_common_of_mem_crossings _ hcross
    exact ⟨longhand, List.mem_cons_of_mem _ hleft, List.mem_cons_of_mem _ hright⟩
  · obtain ⟨longhand, hright, hleft⟩ := exists_common_of_mem_crossings _ hcross
    exact ⟨longhand, List.mem_cons_of_mem _ hleft, List.mem_cons_of_mem _ hright⟩

/-- Properties that do not collide have nothing in common that they set unless they cross. -/
theorem disjoint_footprint_iff {left right : String} (h : ¬Collide left right) :
    (footprint left).Disjoint (footprint right) ↔ ¬Cross left right := by
  constructor
  · intro hdisjoint hcross
    obtain ⟨name, hleft, hright⟩ := hcross.exists_mem_footprint
    exact hdisjoint hleft hright
  · intro hcross name hleft hright
    rcases collide_or_cross hleft hright with hcollide | hcrossed
    · exact h hcollide
    · exact hcross hcrossed

end Property

namespace Entry

/-- Entries that hold for a common width and pass the check set no longhand in common, directly or
through shorthands, exactly when no property of one crosses a property of the other. -/
theorem disjoint_footprints_iff {path : Path} {control candidate : Entry}
    (hoverlap : control.breakpoint.overlaps candidate.breakpoint = true)
    (haccepted : control.conflict? path candidate = none) :
    (∀ p ∈ control.block.properties, ∀ q ∈ candidate.block.properties,
      (Property.footprint p).Disjoint (Property.footprint q)) ↔
      ∀ p ∈ control.block.properties, ∀ q ∈ candidate.block.properties, ¬Property.Cross p q := by
  have hcompatible := conflict?_eq_none_iff.1 haccepted hoverlap
  exact forall₂_congr fun p hp => forall₂_congr fun q hq =>
    Property.disjoint_footprint_iff (hcompatible p hp q hq)

/-- An entry for one side of a border and one for its corners, with a row and a column of a grid,
are accepted and set nothing in common. -/
theorem border_side_and_corners_disjoint :
    let control : Entry := ⟨⟨[{ property := "border-top", value := "1px solid" },
      { property := "grid-row", value := "1 / 3" }]⟩, ⟨0, some 600⟩, none⟩
    let candidate : Entry := ⟨⟨[{ property := "Border-Radius", value := "4px" },
      { property := "grid-column", value := "2 / 4" }]⟩, ⟨600, none⟩, none⟩
    let path := Path.root { element := "div" }
    control.breakpoint.overlaps candidate.breakpoint = true ∧
      control.conflict? path candidate = none ∧
      ∀ p ∈ control.block.properties, ∀ q ∈ candidate.block.properties,
        (Property.footprint p).Disjoint (Property.footprint q) := by
  intro control candidate path
  have hoverlap : control.breakpoint.overlaps candidate.breakpoint = true := by decide
  have haccepted : control.conflict? path candidate = none := by decide +kernel
  exact ⟨hoverlap, haccepted,
    (disjoint_footprints_iff hoverlap haccepted).2 (by decide +kernel)⟩

/-- A row of a grid and an area are accepted for all widths, although the area resets the row. -/
theorem grid_area_resets_row :
    let control : Entry := ⟨⟨[{ property := "grid-row", value := "1 / 3" }]⟩, ⟨0, none⟩, none⟩
    let candidate : Entry :=
      ⟨⟨[{ property := "grid-area", value := "2 / 1 / 4 / 2" }]⟩, ⟨0, none⟩, none⟩
    control.breakpoint.overlaps candidate.breakpoint = true ∧
      control.conflict? (Path.root { element := "div" }) candidate = none ∧
      ∃ p ∈ control.block.properties, ∃ q ∈ candidate.block.properties,
        ∃ longhand ∈ Property.footprint p, longhand ∈ Property.footprint q := by
  decide +kernel

end Entry

end StyleForest
