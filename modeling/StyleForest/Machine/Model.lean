import StyleForest.Machine.FileTree

/-!
# A model of a machine

A machine as a value: its files, and what has been printed on its two outputs so far. Writing to the
device file of an output prints on that output, after all that has been printed before.
-/

namespace StyleForest

/-- A machine at one moment. -/
structure MachineState where
  tree : FileTree
  /-- What has been printed on the standard output. -/
  output : String
  /-- What has been printed on the error output. -/
  errorOutput : String

namespace MachineState

/-- A machine on which nothing has been printed. -/
def ofTree (tree : FileTree) : MachineState := ⟨tree, "", ""⟩

/-- Prints a text on the standard output. -/
def print (state : MachineState) (text : String) : MachineState :=
  { state with output := state.output ++ text }

/-- Prints a text on the error output. -/
def printError (state : MachineState) (text : String) : MachineState :=
  { state with errorOutput := state.errorOutput ++ text }

/-- Writes a text to a device. A full device has room for the empty text. -/
def writeDevice (state : MachineState) (device : Device) (text : String) :
    Except FileFault MachineState :=
  match device with
  | .null => .ok state
  | .full => if text.isEmpty then .ok state else .error .noSpace
  | .terminal => .error .noDevice
  | .output => .ok (state.print text)
  | .errorOutput => .ok (state.printError text)

/-- Writes a text to the file at a path. -/
def write (state : MachineState) (path text : String) : Except FileFault MachineState := do
  let place ← state.tree.target path
  match state.tree.files[place]? with
  | some (.device device) => state.writeDevice device text
  | _ => .ok { state with tree := state.tree.put place text }

/-- The machine whose operations act on its state. -/
def machine : Machine (StateM MachineState) where
  read path := return (← get).tree.read path
  write path text := do
    match (← get).write path text with
    | .ok state =>
      set state
      return .ok ()
    | .error fault => return .error fault
  print text := modify (·.print text)
  printError text := modify (·.printError text)

end MachineState

end StyleForest
