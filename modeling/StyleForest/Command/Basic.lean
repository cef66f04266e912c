/-!
# Command lines

The commands of the program and the grammar of its arguments. After `build` come input files and
output options in any order, and an output option takes the next argument whatever that looks
like; of several outputs the last one counts. `check` takes input files only. The leftmost argument
that does not fit decides the error.
-/

namespace StyleForest

/-- What the program is asked to do. -/
inductive Command where
  | help
  | version
  /-- Compile the inputs, into a file if one is given. -/
  | build (inputs : List String) (output : Option String)
  /-- Compile the inputs without writing anything. -/
  | check (inputs : List String)
  deriving DecidableEq, Repr

/-- The reason why arguments are no command. -/
inductive UsageError where
  | missingCommand
  | unknownCommand (name : String)
  | unknownOption (option : String)
  /-- An option at the end that wants a file. -/
  | missingPath (option : String)
  /-- The command wants at least one input. -/
  | missingInput (command : String)
  deriving DecidableEq, Repr

/-- The wording of a usage error. -/
def UsageError.message : UsageError → String
  | .missingCommand => "missing command"
  | .unknownCommand name => s!"unknown command {name}"
  | .unknownOption option => s!"unknown option {option}"
  | .missingPath option => s!"{option} expects a file path"
  | .missingInput command => s!"{command} expects at least one input file"

namespace Command

/-- The argument is an option and not an input. -/
def isOption (argument : String) : Bool :=
  argument.toList.head? = some '-'

/-- The argument is the option that names the output. -/
def isOutputOption (argument : String) : Bool :=
  argument = "-o" || argument = "--output"

/-- The inputs among the arguments of a build, and the last output. -/
def buildItems : List String → Except UsageError (List String × Option String)
  | [] => .ok ([], none)
  | argument :: rest =>
    if isOutputOption argument then
      match rest with
      | [] => .error (.missingPath argument)
      | path :: rest =>
        (buildItems rest).map fun (inputs, output) => (inputs, output.or (some path))
    else if isOption argument then
      .error (.unknownOption argument)
    else
      (buildItems rest).map fun (inputs, output) => (argument :: inputs, output)

/-- The build that arguments ask for. -/
def parseBuild (arguments : List String) : Except UsageError Command := do
  let (inputs, output) ← buildItems arguments
  if inputs.isEmpty then
    .error (.missingInput "build")
  else
    return .build inputs output

/-- The check that arguments ask for. -/
def parseCheck (arguments : List String) : Except UsageError Command :=
  match arguments.find? isOption with
  | some option => .error (.unknownOption option)
  | none => if arguments.isEmpty then .error (.missingInput "check") else .ok (.check arguments)

/-- The command that arguments ask for. -/
def parse : List String → Except UsageError Command
  | [] => .error .missingCommand
  | name :: arguments =>
    if name = "--help" ∨ name = "-h" ∨ name = "help" then .ok .help
    else if name = "--version" ∨ name = "-V" then .ok .version
    else if name = "build" then parseBuild arguments
    else if name = "check" then parseCheck arguments
    else .error (.unknownCommand name)

/-- The version of the program. -/
def versionNumber : String := "0.1.0"

/-- The text that explains the commands of a program of this name. -/
def usage (program : String) : String :=
  "\n".intercalate
    [s!"Immutable Styles {versionNumber} - A CSS compiler that forbids overrides",
      "",
      "USAGE:",
      s!"    {program} <COMMAND> [OPTIONS]",
      "",
      "COMMANDS:",
      "    build <FILE>...        Compile style documents into a stylesheet",
      "    check <FILE>...        Validate style documents without writing CSS",
      "",
      "OPTIONS:",
      "    -o, --output <FILE>    Write the stylesheet to FILE instead of stdout",
      "    -h, --help             Print this help message",
      "    -V, --version          Print version information",
      "",
      "EXAMPLES:",
      s!"    {program} build styles/layout.json styles/buttons.json -o site.css",
      s!"    {program} check styles/*.json",
      s!"    RUST_LOG=debug {program} build styles/layout.json",
      "",
      ""]

end Command

end StyleForest
