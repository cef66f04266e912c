/-!
# Breakpoints

A breakpoint is a range of viewport widths in pixels, both ends included; without an upper
end it is unbounded above. Ranges are compared as if a missing upper end were the largest
width, and written as the conditions of a media query that leaves out a bound that says
nothing.
-/

namespace StyleForest

/-- A range of viewport widths. -/
structure Breakpoint where
  min : UInt32
  max : Option UInt32
  deriving DecidableEq, Repr

namespace Breakpoint

/-- The range of all widths. -/
def unbounded : Breakpoint := ⟨0, none⟩

/-- The range with the bounds that are given. -/
def ofBounds (min max : Option UInt32) : Breakpoint :=
  ⟨min.getD 0, max⟩

/-- The range is the one of all widths. -/
def isUnbounded (range : Breakpoint) : Bool :=
  range == unbounded

/-- The upper end, or the largest width if there is none. -/
def ceiling (range : Breakpoint) : UInt32 :=
  range.max.getD 4294967295

/-- Two ranges overlap unless one lies entirely below the other. -/
def overlaps (left right : Breakpoint) : Bool :=
  !(right.ceiling < left.min || right.min > left.ceiling)

/-- Two ranges overlap when each begins no later than the other ends. -/
theorem overlaps_iff {left right : Breakpoint} :
    left.overlaps right = true ↔ left.min ≤ right.ceiling ∧ right.min ≤ left.ceiling := by
  simp [overlaps]

/-- Overlap does not depend on the order of the ranges. -/
theorem overlaps_comm (left right : Breakpoint) : left.overlaps right = right.overlaps left := by
  simp only [overlaps, gt_iff_lt, Bool.or_comm]

/-- The conditions a viewport has to meet, one for each bound that says something. -/
def conditions (range : Breakpoint) : List String :=
  (if range.min = 0 then [] else [s!"(min-width:{range.min}px)"]) ++
    (range.max.map fun max => s!"(max-width:{max}px)").toList

/-- The condition list of a media query; the range of all widths needs none. -/
def mediaQuery? (range : Breakpoint) : Option String :=
  match range.conditions with
  | [] => none
  | conditions => some (" and ".intercalate conditions)

/-- Only the range of all widths has no media query. -/
theorem mediaQuery?_eq_none_iff {range : Breakpoint} :
    range.mediaQuery? = none ↔ range.isUnbounded = true := by
  obtain ⟨min, max⟩ := range
  by_cases hmin : min = 0
  · cases max with
    | none => simp [mediaQuery?, conditions, isUnbounded, unbounded, hmin]
    | some max => simp [mediaQuery?, conditions, isUnbounded, unbounded, hmin]
  · simp [mediaQuery?, conditions, isUnbounded, unbounded, hmin]

/-- A range as it is shown in messages. -/
def render (range : Breakpoint) : String :=
  match range.max with
  | some max => s!"[{range.min}, {max}]"
  | none => s!"[{range.min}, +inf)"

end Breakpoint

end StyleForest
