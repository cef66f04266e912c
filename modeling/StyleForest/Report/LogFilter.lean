import StyleForest.Report.Journal
import StyleForest.Text.ControlSequence

/-!
# Log lines

A filter lets the records through that are at least as important as its level, and none if it is
switched off. A record is one line with its level and target; the further lines of a message are
indented, and nothing in a record steers the terminal that shows it.
-/

namespace StyleForest

/-- The place of a level in the order of importance; the most important one is first. -/
def LogLevel.rank : LogLevel → Nat
  | .error => 0
  | .warn => 1
  | .info => 2
  | .debug => 3
  | .trace => 4

/-- The name of a level, as wide as the longest one. -/
def LogLevel.label : LogLevel → String
  | .error => "ERROR"
  | .warn => "WARN "
  | .info => "INFO "
  | .debug => "DEBUG"
  | .trace => "TRACE"

/-- Which records are shown. -/
inductive LogFilter where
  | off
  | upTo (level : LogLevel)
  deriving DecidableEq, Repr

namespace LogFilter

/-- The filter is named by a level, in any letter case. Without a name it is the one for
information, an empty name asks for errors only, and any other name for nothing. -/
def ofName : Option String → LogFilter
  | none => .upTo .info
  | some name =>
    let levels := [("", LogLevel.error), ("error", .error), ("warn", .warn), ("info", .info),
      ("debug", .debug), ("trace", .trace)]
    match levels.lookup (Text.lower name) with
    | some level => .upTo level
    | none => .off

/-- The filter lets a level through. -/
def admits (filter : LogFilter) (level : LogLevel) : Bool :=
  match filter with
  | .off => false
  | .upTo limit => level.rank ≤ limit.rank

end LogFilter

/-- The text with every line after the first indented. -/
def indentLines (text : String) : String :=
  String.ofList (text.toList.flatMap fun c => if c = '\n' then "\n    ".toList else [c])

/-- A record as it is shown. The whole line is cleared of controls, so a sequence that its message
leaves open takes what follows along. -/
def LogRecord.render (record : LogRecord) : String :=
  Text.plain s!"[{record.level.label} {record.target}] {indentLines record.message}\n"

/-- The records that a filter lets through, as they are shown. -/
def LogFilter.render (filter : LogFilter) (records : List LogRecord) : String :=
  String.join ((records.filter fun record => filter.admits record.level).map LogRecord.render)

end StyleForest
