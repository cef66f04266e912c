import StyleForest.Forest.Compiler
import StyleForest.Report.Frame

/-!
# The journal of a compilation

What a compilation tells about its work: one record for every node that is assembled, every copy
of a base class and every way an entry is filed, one for each stage that succeeds, and the error
of a failure. Records are derived from the decisions the compilation takes.
-/

namespace StyleForest

/-- How important a record is, the most important level first. -/
inductive LogLevel where
  | error
  | warn
  | info
  | debug
  | trace
  deriving DecidableEq, Repr

/-- One record: its level, the part of the program it comes from, and its message. -/
structure LogRecord where
  level : LogLevel
  target : String
  message : String
  deriving DecidableEq, Repr

namespace Journal

/-- A record of the finest level. -/
def traced (part message : String) : LogRecord :=
  ⟨.trace, "immutable_styles_style::" ++ part, message⟩

/-- A record about a stage. -/
def stage (part message : String) : LogRecord :=
  ⟨.debug, "immutable_styles_style::" ++ part, message⟩

/-- The record of an error with its frames. -/
def failure (maps : SourceMaps) (error : StyleError) : LogRecord :=
  ⟨.error, "immutable_styles::diagnostics", error.renderWith maps⟩

/-- The records of copying a base: one for each path that is new. -/
def copies (table : StyleTable) (base target : Fragment) : List LogRecord :=
  go table (table.clonesOf base target)
where
  /-- The records of adding rows one after the other. -/
  go (table : StyleTable) : List (Path × EntryList) → List LogRecord
    | [] => []
    | (path, list) :: rest =>
      let added := go (table.addNew (path, list)) rest
      if table.contains path then added
      else traced "inheritance" s!"cloned `{path.render}` ({list.size} entries)" :: added

/-- The record of filing the declarations of a node. -/
def filing (table : StyleTable) (visit : Visit) (range : Breakpoint) : List LogRecord :=
  let path := visit.path
  let decision := do
    let block ← readBlock path visit.element visit.declarations visit.source
    table.filing path { block, breakpoint := range, source := visit.source }
  let message := fun (text : String) =>
    [traced "validator" s!"{text} `{path.render}` {range.render}"]
  match decision with
  | .ok .opened => message "new ref"
  | .ok .merged => message "merging subclass override into"
  | .ok .appended => message "appending entry to"
  | .error _ => []

/-- The records of placing one node. -/
def placing (table : StyleTable) (visit : Visit) : List LogRecord :=
  match visit.attributes.validate with
  | .error _ => []
  | .ok () =>
    traced "assembler" s!"assembling `{visit.path.render}`" ::
      match visit.placement with
      | .error _ => []
      | .ok placement =>
        match table.prepare visit placement with
        | .error _ => []
        | .ok prepared =>
          (placement.base.map fun base => copies table base visit.fragment).getD [] ++
            filing prepared visit placement.range

/-- The records of placing nodes in order up to the first failure. -/
def assembling (progress : Progress) : List Visit → List LogRecord
  | [] => []
  | visit :: rest =>
    match progress.failure with
    | some _ => []
    | none => placing progress.table visit ++ assembling (progress.step visit) rest

/-- The records of the stages after assembling a number of trees into a table. -/
def finishing (maps : SourceMaps) (trees : Nat) (progress : Progress) : List LogRecord :=
  let table := progress.table
  match progress.failure with
  | some error => [failure maps error]
  | none =>
    stage "compiler" s!"assembled {trees} trees into {table.size} refs" ::
      match table.inconsistency? with
      | some error => [failure maps error]
      | none =>
        let comparisons := table.comparisons.length
        let rules := table.rules.length
        [stage "consistency" s!"consistency pass: {table.size} refs, {comparisons} comparisons",
          stage "emitter" s!"emitted {rules} rules for {table.size} refs"]

/-- The records of compiling a forest. -/
def compiling (maps : SourceMaps) (forest : List Node) : List LogRecord :=
  assembling (Progress.start StyleTable.empty) (Node.visitsOfAll none none forest) ++
    finishing maps forest.length (assembleForest forest)

end Journal

end StyleForest
