import Std.Data.TreeMap
import StyleForest.StyleError
import StyleForest.Text.Lines

/-!
# Messages with source frames

The texts of the loaded files are kept under their paths, so that a message can show the line a
location points at and mark the column. The mark stands below the place of the column in the
line above it.
-/

namespace StyleForest

/-- The texts of files under their paths. -/
structure SourceMaps where
  texts : Std.TreeMap String String

namespace SourceMaps

/-- No files. -/
def empty : SourceMaps := ⟨∅⟩

/-- Keeps the text of a file; an earlier text of the same path is replaced. -/
def insert (maps : SourceMaps) (path text : String) : SourceMaps :=
  ⟨maps.texts.insert path text⟩

/-- The line a location points at, if its file is known and has that line. -/
def line? (maps : SourceMaps) (location : Location) : Option String :=
  if location.line = 0 then
    none
  else do
    let text ← maps.texts[location.file]?
    let line ← (Text.lines text.toList)[location.line.toNat - 1]?
    return String.ofList line

/-- The lines that show a location: its text, the source line behind its number, and a mark
below the column. -/
def frame (maps : SourceMaps) (label : String) (location : Location) : List String :=
  let head := s!"  {label} {location.render}"
  match maps.line? location with
  | none => [head]
  | some line =>
    let gutter := s!"{location.line}"
    let mark := String.ofList (List.replicate (gutter.length + 2 + location.column.toNat) ' ')
    [head, s!"  {gutter} | {line}"] ++ if location.column = 0 then [] else [s!"  {mark}^"]

end SourceMaps

/-- The message of an error with a frame for its location, and one for the earlier declaration
if that stands elsewhere. -/
def StyleError.renderWith (error : StyleError) (maps : SourceMaps) : String :=
  let related := if error.related = error.location then none else error.related
  "\n".intercalate <|
    [error.message] ++
      (error.location.map (maps.frame "-->")).getD [] ++
      (related.map (maps.frame "previously declared at")).getD []

end StyleForest
