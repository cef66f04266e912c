import StyleForest.Forest.Assembly
import StyleForest.Forest.Consistency
import StyleForest.Forest.Stylesheet

/-!
# Compiling a forest

Compiling assembles a forest into an empty table, checks the table for conflicts between paths
and writes its stylesheet. A compiler holds the table of the last compilation and the errors it
has reported so far; it starts every compilation from an empty table.
-/

namespace StyleForest

/-- The stylesheet of a table, unless assembling it failed or its entries conflict. -/
def Progress.finish (progress : Progress) : Except StyleError String :=
  match progress.failure.or progress.table.inconsistency? with
  | some error => .error error
  | none => .ok progress.table.stylesheet

/-- Compiles a forest into a stylesheet. -/
def compile (forest : List Node) : Except StyleError String :=
  (assembleForest forest).finish

/-- A compiler between two compilations. -/
structure Compiler where
  /-- The table of the last compilation. -/
  table : StyleTable
  /-- The errors of all compilations, in order. -/
  reported : List StyleError

namespace Compiler

/-- A compiler that has compiled nothing. -/
def new : Compiler := ⟨StyleTable.empty, []⟩

/-- Drops what has been compiled; the reported errors stay. -/
def reset (compiler : Compiler) : Compiler :=
  { compiler with table := compiler.table.clear }

/-- Files the trees of a forest in the table of the compiler and finishes. -/
def extend (compiler : Compiler) (forest : List Node) : Except StyleError String × Compiler :=
  let progress := (Progress.start compiler.table).run (Node.visitsOfAll none none forest)
  match progress.finish with
  | .ok sheet => (.ok sheet, { compiler with table := progress.table })
  | .error error =>
    (.error error, { table := progress.table, reported := compiler.reported ++ [error] })

/-- Compiles a forest, forgetting what was compiled before. A failure is reported and leaves the
table as far as it got. -/
def compile (compiler : Compiler) (forest : List Node) : Except StyleError String × Compiler :=
  compiler.reset.extend forest

/-- Compiles a single tree. -/
def compileNode (compiler : Compiler) (node : Node) : Except StyleError String × Compiler :=
  compiler.compile [node]

/-- Takes the reported errors out of the compiler. -/
def drain (compiler : Compiler) : List StyleError × Compiler :=
  (compiler.reported, { compiler with reported := [] })

end Compiler

end StyleForest
