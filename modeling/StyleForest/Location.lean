/-!
# Locations

A location names the place in a file where a node was written. It is carried along to the
messages and never inspected otherwise. A line or a column of zero is unknown.
-/

namespace StyleForest

/-- A place in a source file. -/
structure Location where
  file : String
  line : UInt32
  column : UInt32
  deriving DecidableEq, Repr

/-- A location as it is shown in messages; what is unknown is left out. -/
def Location.render (location : Location) : String :=
  if location.line = 0 then
    location.file
  else if location.column = 0 then
    s!"{location.file}:{location.line}"
  else
    s!"{location.file}:{location.line}:{location.column}"

end StyleForest
