import StyleForest.Command.Basic
import StyleForest.Document.Load
import StyleForest.Machine.Basic
import StyleForest.Report.LogFilter

/-!
# Running a command

A run reads its inputs in order, loads each as a document, compiles all their trees as one forest
and, for a build, writes the stylesheet. The first failure ends the run, and no stylesheet is
written or printed then. Log records are printed on the error output as they arise. A run is
described for any machine.
-/

namespace StyleForest

/-- What a run has loaded so far. -/
structure Session where
  maps : SourceMaps
  forest : List Node

/-- The start of a run. -/
def Session.start : Session := ⟨SourceMaps.empty, []⟩

/-- The reason why a run fails. -/
inductive RunError where
  | unreadable (path : String) (fault : FileFault)
  /-- The text of an input is no document. -/
  | unloadable (error : LoadError)
  /-- A node of an input is refused; the log tells why. -/
  | refused (path : String)
  /-- The forest does not compile; the log tells where. -/
  | uncompilable (fault : Fault)
  | unwritable (path : String) (fault : FileFault)

/-- The wording of a failure. -/
def RunError.message : RunError → String
  | .unreadable path fault => s!"Failed to read {path}: {fault.message}"
  | .unloadable error => error.message
  | .refused path => s!"{path} failed to load"
  | .uncompilable fault => s!"compilation failed ({fault.name})"
  | .unwritable path fault => s!"Failed to write {path}: {fault.message}"

namespace Machine

variable {m : Type → Type} (machine : Machine m)

/-- Prints the records that the filter lets through. -/
def log (filter : LogFilter) (records : List LogRecord) : m Unit :=
  machine.printError (filter.render records)

/-- Logs a record of the command itself. -/
def inform (filter : LogFilter) (message : String) : m Unit :=
  machine.log filter [⟨.info, "immutable_styles", message⟩]

/-- Prints why the program fails. -/
def complain (message : String) : m Unit :=
  machine.printError s!"Error: {message}\n"

end Machine

namespace Command

variable {m : Type → Type} [Monad m] (machine : Machine m) (filter : LogFilter)

/-- Reads and loads one input. -/
def loadInput (session : Session) (path : String) : ExceptT RunError m Session := do
  match ← machine.read path with
  | .error fault => throw (.unreadable path fault)
  | .ok text =>
    let maps := session.maps.insert path text
    match loadForest text path with
    | .ok trees =>
      machine.inform filter s!"Loaded {trees.length} trees from {path}"
      return { maps, forest := session.forest ++ trees }
    | .error (.style error) =>
      machine.log filter [Journal.failure maps error]
      throw (.refused path)
    | .error error => throw (.unloadable error)

/-- Loads the inputs in order and compiles them into one stylesheet. -/
def compileInputs (inputs : List String) : ExceptT RunError m String := do
  let session ← inputs.foldlM (loadInput machine filter) Session.start
  machine.log filter (Journal.compiling session.maps session.forest)
  match compile session.forest with
  | .ok sheet => return sheet
  | .error error => throw (.uncompilable error.fault)

/-- Builds a stylesheet from inputs. -/
def runBuild (inputs : List String) (output : Option String) : ExceptT RunError m Unit := do
  let sheet ← compileInputs machine filter inputs
  match output with
  | none => machine.print sheet
  | some path =>
    match ← machine.write path sheet with
    | .ok () => machine.inform filter s!"Wrote {sheet.utf8ByteSize} bytes to {path}"
    | .error fault => throw (.unwritable path fault)

/-- Checks inputs. -/
def runCheck (inputs : List String) : ExceptT RunError m Unit := do
  let _ ← compileInputs machine filter inputs
  machine.inform filter s!"{inputs.length} files checked, no overrides found"

/-- Runs a command of the program of this name. -/
def run (program : String) : Command → ExceptT RunError m Unit
  | .help => machine.print (usage program)
  | .version => machine.print s!"Immutable Styles {versionNumber}\n"
  | .build inputs output => runBuild machine filter inputs output
  | .check inputs => runCheck machine filter inputs

/-- Runs the program of this name on its arguments; the answer is whether it succeeds. Arguments
that are no command are answered with the usage. -/
def runArguments (program : String) (arguments : List String) : m Bool := do
  match parse arguments with
  | .error error =>
    machine.complain error.message
    machine.print (usage program)
    return false
  | .ok command =>
    match ← (run machine filter program command).run with
    | .ok () => return true
    | .error error =>
      machine.complain error.message
      return false

end Command

end StyleForest
