import StyleForest.StyleError
import StyleForest.Table.Entry
import StyleForest.Selector.Path

/-!
# Conflicts between entries

Two entries for overlapping ranges conflict when they share a property, or when a shorthand
in one of them resets a longhand in the other. The candidate is at fault for a shared
property; otherwise the entry with the shorthand is, and the candidate's shorthands are looked
at before those of the control.
-/

namespace StyleForest.Entry

/-- The first property of the control that the candidate declares too. -/
def sharedProperty? (control candidate : Entry) : Option String :=
  control.block.properties.find? candidate.block.contains

/-- The first shorthand of the second entry that resets a longhand of the first one, and the
first longhand it resets. -/
def resetPair? (longhands shorthands : Entry) : Option (String × String) :=
  shorthands.block.properties.findSome? fun shorthand =>
    (longhands.block.properties.find? (Property.resets shorthand)).map fun longhand =>
      (longhand, shorthand)

/-- The error of an entry whose shorthand resets a longhand of another entry. -/
def resetError (path : Path) (longhands shorthands : Entry) (pair : String × String) :
    StyleError :=
  ⟨.partialOverrideFound path.render pair.1 pair.2 longhands.source, shorthands.source⟩

/-- The conflict between two entries that the control was filed before. -/
def conflict? (path : Path) (control candidate : Entry) : Option StyleError :=
  if control.breakpoint.overlaps candidate.breakpoint then
    let shared := (sharedProperty? control candidate).map fun property =>
      StyleError.mk (.overrideFound path.render property control.source) candidate.source
    shared
      |>.or ((resetPair? control candidate).map (resetError path control candidate))
      |>.or ((resetPair? candidate control).map (resetError path candidate control))
  else
    none

end StyleForest.Entry
