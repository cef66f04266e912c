import StyleForest.Proofs.FiledRanges
import StyleForest.Proofs.MediaQuery

/-!
# The widths a range holds for

A media query is read as conditions on the width of the viewport, joined by the word "and". What is
read of the query of a range are the bounds of the range that say something
(`Breakpoint.readQuery?_mediaQuery?`), so the query is met by the widths between the bounds. The
table compares the bounds and not the queries, and takes the largest bound where there is no upper
one. Both tell the same of the ranges it files, which are not inverted: two ranges overlap exactly
when some width meets the queries of both (`Breakpoint.overlaps_iff_common_width`).
-/

namespace StyleForest

/-- A condition on the width of the viewport, in pixels. -/
inductive WidthCondition where
  | atLeast (pixels : Nat)
  | atMost (pixels : Nat)
  deriving DecidableEq, Repr

namespace WidthCondition

/-- The width meets the condition. -/
def Holds (width : Nat) : WidthCondition → Prop
  | atLeast pixels => pixels ≤ width
  | atMost pixels => width ≤ pixels

/-- Reads a number with the unit and the bracket that end a condition. -/
def readPixels? (text : List Char) : Option Nat :=
  if text.dropWhile Char.isDigit = ['p', 'x', ')'] then
    (String.ofList (text.takeWhile Char.isDigit)).toNat?
  else
    none

/-- Reads a condition on the least or on the largest width. -/
def read? (text : List Char) : Option WidthCondition :=
  match Breakpoint.minLabel.isPrefixOf? text, Breakpoint.maxLabel.isPrefixOf? text with
  | some rest, _ => (readPixels? rest).map atLeast
  | none, some rest => (readPixels? rest).map atMost
  | none, none => none

/-- Reads conditions with the word "and" between them. -/
def readWords? : List (List Char) → Option (List WidthCondition)
  | [word] => (read? word).map fun condition => [condition]
  | word :: ['a', 'n', 'd'] :: rest => do
    return (← read? word) :: (← readWords? rest)
  | _ => none

/-- Reads the conditions of a media query. -/
def readQuery? (query : String) : Option (List WidthCondition) :=
  readWords? (query.toList.splitOn ' ')

end WidthCondition

namespace Breakpoint

/-- The condition on a bound: its label, its digits and the unit. -/
def conditionText (label : List Char) (bound : UInt32) : List Char :=
  label ++ (digits bound ++ ['p', 'x', ')'])

/-- A bound is read back as the number it is. -/
theorem readPixels?_digits (bound : UInt32) :
    WidthCondition.readPixels? (digits bound ++ ['p', 'x', ')']) = some bound.toNat := by
  have hdigits : ∀ c ∈ digits bound, c.isDigit = true := fun c => isDigit_of_mem_digits
  have hnumber : (String.ofList (digits bound)).toNat? = some bound.toNat := by
    rw [digits, String.ofList_toList]
    exact Nat.toNat?_repr bound.toNat
  rw [WidthCondition.readPixels?, List.dropWhile_append_of_pos hdigits,
    List.takeWhile_append_of_pos hdigits]
  simpa using hnumber

/-- A lower bound is read back from its condition. -/
theorem read?_minLabel (bound : UInt32) :
    WidthCondition.read? (conditionText minLabel bound) = some (.atLeast bound.toNat) := by
  have hmin : minLabel.isPrefixOf? (conditionText minLabel bound) =
      some (digits bound ++ ['p', 'x', ')']) :=
    List.isPrefixOf?_eq_some_iff_append_eq.2 rfl
  simp only [WidthCondition.read?, hmin, readPixels?_digits, Option.map_some]

/-- An upper bound is read back from its condition. -/
theorem read?_maxLabel (bound : UInt32) :
    WidthCondition.read? (conditionText maxLabel bound) = some (.atMost bound.toNat) := by
  -- The third character of the text tells that it does not begin with the other label.
  have hmin : minLabel.isPrefixOf? (conditionText maxLabel bound) = none := rfl
  have hmax : maxLabel.isPrefixOf? (conditionText maxLabel bound) =
      some (digits bound ++ ['p', 'x', ')']) :=
    List.isPrefixOf?_eq_some_iff_append_eq.2 rfl
  simp only [WidthCondition.read?, hmin, hmax, readPixels?_digits, Option.map_some]

/-- A condition is one word. -/
theorem blank_not_mem_conditionText {label : List Char} (hlabel : ' ' ∉ label) (bound : UInt32) :
    ' ' ∉ conditionText label bound := by
  have hdigits : ' ' ∉ digits bound := fun hmem => by
    have hblank := isDigit_of_mem_digits hmem
    revert hblank
    decide
  simp [conditionText, hlabel, hdigits]

/-- The words of a query, as its bounds are written. -/
def queryWords : Option UInt32 → Option UInt32 → List (List Char)
  | none, none => []
  | none, some max => [conditionText maxLabel max]
  | some min, none => [conditionText minLabel min]
  | some min, some max =>
    [conditionText minLabel min, ['a', 'n', 'd'], conditionText maxLabel max]

private theorem intercalate_queryWords (lower upper : Option UInt32) :
    [' '].intercalate (queryWords lower upper) = queryText lower upper := by
  cases lower with
  | none =>
    cases upper with
    | none => rfl
    | some max => simp [queryWords, queryText, conditionText]
  | some min =>
    cases upper with
    | none => simp [queryWords, queryText, conditionText, upperText]
    | some max => simp [queryWords, queryText, conditionText, upperText]

/-- A query is split into its words, unless it has none. -/
theorem splitOn_queryText {lower upper : Option UInt32} (h : queryWords lower upper ≠ []) :
    (queryText lower upper).splitOn ' ' = queryWords lower upper := by
  have hwords : ∀ word ∈ queryWords lower upper, ' ' ∉ word := by
    have hmin (bound : UInt32) : ' ' ∉ conditionText minLabel bound :=
      blank_not_mem_conditionText (by decide) bound
    have hmax (bound : UInt32) : ' ' ∉ conditionText maxLabel bound :=
      blank_not_mem_conditionText (by decide) bound
    cases lower with
    | none =>
      cases upper with
      | none => simp [queryWords]
      | some max => simp [queryWords, hmax]
    | some min =>
      cases upper with
      | none => simp [queryWords, hmin]
      | some max => simp [queryWords, hmin, hmax]
  rw [← intercalate_queryWords, List.splitOn_intercalate ' ' hwords h]

/-- The bounds that say something, as conditions on the width. -/
def widthConditions (lower upper : Option UInt32) : List WidthCondition :=
  (lower.map fun min => .atLeast min.toNat).toList ++
    (upper.map fun max => .atMost max.toNat).toList

/-- The words of a query are read back as its conditions, unless it has none. -/
theorem readWords?_queryWords {lower upper : Option UInt32} (h : queryWords lower upper ≠ []) :
    WidthCondition.readWords? (queryWords lower upper) = some (widthConditions lower upper) := by
  cases lower with
  | none =>
    cases upper with
    | none => exact absurd rfl h
    | some max => simp [queryWords, WidthCondition.readWords?, read?_maxLabel, widthConditions]
  | some min =>
    cases upper with
    | none => simp [queryWords, WidthCondition.readWords?, read?_minLabel, widthConditions]
    | some max =>
      simp [queryWords, WidthCondition.readWords?, read?_minLabel, read?_maxLabel, widthConditions]

/-- A range that is written has a bound that says something. -/
theorem queryWords_ne_nil {range : Breakpoint} {query : String}
    (h : range.mediaQuery? = some query) : queryWords range.lower? range.max ≠ [] := by
  intro hnone
  have hunbounded : range = unbounded := by
    obtain ⟨min, max⟩ := range
    refine eq_of_bounds ?_ ?_
    · cases hlower : lower? ⟨min, max⟩ with
      | none => rfl
      | some lower => cases max <;> simp [queryWords, hlower] at hnone
    · cases max with
      | none => rfl
      | some upper => cases hlower : lower? ⟨min, some upper⟩ <;> simp [queryWords, hlower] at hnone
  rw [mediaQuery?_eq_none_iff.2 (by rw [hunbounded]; rfl)] at h
  cases h

/-- What is read of the query of a range are its bounds. -/
theorem readQuery?_mediaQuery? {range : Breakpoint} {query : String}
    (h : range.mediaQuery? = some query) :
    WidthCondition.readQuery? query = some (widthConditions range.lower? range.max) := by
  have htext := range.toList_mediaQuery?
  rw [h, Option.map_some, Option.getD_some] at htext
  have hne := queryWords_ne_nil h
  rw [WidthCondition.readQuery?, htext, splitOn_queryText hne, readWords?_queryWords hne]

/-- The rules for the range apply at the width: it meets every condition that is read of the media
query of the range. -/
def AppliesAt (range : Breakpoint) (width : Nat) : Prop :=
  ∀ query, range.mediaQuery? = some query →
    ∃ conditions, WidthCondition.readQuery? query = some conditions ∧
      ∀ condition ∈ conditions, condition.Holds width

/-- The rules for a range apply at the widths between its ends. -/
theorem appliesAt_iff {range : Breakpoint} {width : Nat} :
    range.AppliesAt width ↔
      range.min.toNat ≤ width ∧ ∀ max, range.max = some max → width ≤ max.toNat := by
  have hbounds : (∀ condition ∈ widthConditions range.lower? range.max, condition.Holds width) ↔
      range.min.toNat ≤ width ∧ ∀ max, range.max = some max → width ≤ max.toNat := by
    obtain ⟨min, max⟩ := range
    by_cases hmin : min = 0
    · cases max with
      | none => simp [widthConditions, lower?, hmin]
      | some max => simp [widthConditions, lower?, hmin, WidthCondition.Holds]
    · cases max with
      | none => simp [widthConditions, lower?, hmin, WidthCondition.Holds]
      | some max => simp [widthConditions, lower?, hmin, WidthCondition.Holds]
  rw [← hbounds, AppliesAt]
  cases hquery : range.mediaQuery? with
  | none =>
    have hunbounded : range = unbounded := beq_iff_eq.1 (mediaQuery?_eq_none_iff.1 hquery)
    refine iff_of_true nofun ?_
    rw [hunbounded]
    exact List.forall_mem_nil _
  | some query =>
    simp only [Option.some.injEq, forall_eq', readQuery?_mediaQuery? hquery, exists_eq_left']

/-- The largest bound stands in for a missing upper end because no bound is above it. -/
theorem le_ceiling_iff {range : Breakpoint} {bound : UInt32} :
    bound ≤ range.ceiling ↔ ∀ max, range.max = some max → bound.toNat ≤ max.toNat := by
  obtain ⟨min, max⟩ := range
  cases max with
  | none =>
    have hlargest : bound.toNat < 4294967296 := bound.toNat_lt
    have hceiling : ceiling ⟨min, none⟩ = 4294967295 := rfl
    rw [hceiling, UInt32.le_iff_toNat_le]
    exact iff_of_true (Nat.le_of_lt_succ hlargest) nofun
  | some max => simp [ceiling, UInt32.le_iff_toNat_le]

/-- Ordered ranges overlap exactly when some width is in both. -/
theorem overlaps_iff_exists_appliesAt {left right : Breakpoint} (hleft : left.Ordered)
    (hright : right.Ordered) :
    left.overlaps right = true ↔ ∃ width, left.AppliesAt width ∧ right.AppliesAt width := by
  simp only [overlaps_iff, le_ceiling_iff, appliesAt_iff]
  constructor
  · rintro ⟨hbelow, habove⟩
    -- The larger one of the lower ends lies in both ranges.
    refine ⟨Max.max left.min.toNat right.min.toNat, ⟨Nat.le_max_left .., fun upper hupper => ?_⟩,
      Nat.le_max_right .., fun upper hupper => ?_⟩
    · exact Nat.max_le.2 ⟨UInt32.le_iff_toNat_le.1 (hleft upper hupper), habove upper hupper⟩
    · exact Nat.max_le.2 ⟨hbelow upper hupper, UInt32.le_iff_toNat_le.1 (hright upper hupper)⟩
  · rintro ⟨width, ⟨hleftMin, hleftMax⟩, hrightMin, hrightMax⟩
    exact ⟨fun upper hupper => Nat.le_trans hleftMin (hrightMax upper hupper),
      fun upper hupper => Nat.le_trans hrightMin (hleftMax upper hupper)⟩

/-- Ranges that are not inverted overlap exactly when some width, however large, meets every
condition that is written for either of them. The order of the two does not matter, only the range
of all widths is written without a condition, and different ranges are written differently. No table
of a run has an entry for an inverted range. -/
theorem overlaps_iff_common_width {left right : Breakpoint} (hleft : left.Ordered)
    (hright : right.Ordered) :
    (left.overlaps right = true ↔ ∃ width, left.AppliesAt width ∧ right.AppliesAt width) ∧
      left.overlaps right = right.overlaps left ∧
      (left.mediaQuery? = none ↔ left.isUnbounded = true) ∧
      (left ≠ right → left.mediaQuery? ≠ right.mediaQuery?) ∧
      (∀ attributes : Attributes, attributes.validate = .ok () →
        ∀ range, attributes.breakpoint? = some range → range.Ordered) ∧
      ∀ table : StyleTable, table.Reachable → table.RangesOrdered :=
  ⟨overlaps_iff_exists_appliesAt hleft hright, overlaps_comm left right, mediaQuery?_eq_none_iff,
    fun hne hsame => hne (mediaQuery?_injective hsame),
    fun _ hvalid _ hrange => Attributes.ordered_of_validate hvalid hrange,
    fun _ hreachable => hreachable.rangesOrdered⟩

/-- The largest bound, given as an upper end, is a width that the range above it has too. -/
theorem touching_ranges_have_common_width :
    let left : Breakpoint := ⟨600, some 4294967295⟩
    let right : Breakpoint := ⟨4294967295, none⟩
    left.Ordered ∧ right.Ordered ∧ left.overlaps right = true ∧
      (∃ width, left.AppliesAt width ∧ right.AppliesAt width) ∧
      left.mediaQuery? ≠ right.mediaQuery? := by
  intro left right
  have hleft : left.Ordered := by
    rintro max ⟨⟩
    decide
  have hright : right.Ordered := nofun
  obtain ⟨hwidth, _, _, hqueries, _⟩ := overlaps_iff_common_width hleft hright
  have hoverlap : left.overlaps right = true := by decide
  exact ⟨hleft, hright, hoverlap, hwidth.1 hoverlap, hqueries (by decide)⟩

end Breakpoint

end StyleForest
