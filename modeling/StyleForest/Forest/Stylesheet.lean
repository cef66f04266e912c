import StyleForest.Selector.Basic
import StyleForest.Table.Basic

/-!
# Stylesheets

The stylesheet of a table has one rule for each entry with a block that is not empty, in table
and entry order. A rule for a bounded range stands in a media query of its own.
-/

namespace StyleForest

/-- A rule of a stylesheet. -/
structure Rule where
  selector : Selector
  breakpoint : Breakpoint
  block : Block
  deriving DecidableEq, Repr

namespace Rule

/-- The blanks in front of a line at a depth. -/
def indent (depth : Nat) : String :=
  String.ofList (List.replicate (2 * depth) ' ')

/-- The lines of a selector with its declarations. -/
def lines (rule : Rule) (depth : Nat) : List String :=
  [indent depth ++ rule.selector.render ++ " \x7b"] ++
    rule.block.declarations.map (fun declaration => indent (depth + 1) ++ declaration.render) ++
    [indent depth ++ "\x7d"]

/-- The lines of a rule, inside a media query unless it holds for all widths. -/
def allLines (rule : Rule) : List String :=
  match rule.breakpoint.mediaQuery? with
  | none => rule.lines 0
  | some query => ["@media " ++ query ++ " \x7b"] ++ rule.lines 1 ++ ["\x7d"]

/-- The text of a rule; every line ends in a line feed. -/
def render (rule : Rule) : String :=
  String.join (rule.allLines.map (· ++ "\n"))

end Rule

namespace StyleTable

/-- The rules of a table, in order. -/
def rules (table : StyleTable) : List Rule :=
  table.toList.flatMap fun (path, list) =>
    (list.entries.filter fun entry => !entry.block.isEmpty).map fun entry =>
      { selector := Selector.ofPath path, breakpoint := entry.breakpoint, block := entry.block }

/-- The stylesheet of a table. -/
def stylesheet (table : StyleTable) : String :=
  String.join (table.rules.map Rule.render)

end StyleTable

end StyleForest
