import StyleForest.Command.Run

/-!
# The program

The command line on a real machine.
-/

namespace StyleForest

/-- The number of an error of the machine, which may be given below zero. -/
def errorNumber? (error : IO.Error) : Option UInt32 :=
  match error with
  | .noFileOrDirectory _ number _ | .noSuchThing _ number _ | .permissionDenied _ number _
  | .inappropriateType _ number _ | .resourceExhausted _ number _ | .invalidArgument _ number _ =>
    some (if number < 0x80000000 then number else 0 - number)
  | _ => none

/-- The fault that an error of the machine is. -/
def FileFault.ofError (error : IO.Error) : FileFault :=
  match errorNumber? error with
  | some 2 => .notFound
  | some 6 => .noDevice
  | some 13 => .notPermitted
  | some 20 => .notDirectory
  | some 21 => .isDirectory
  | some 28 => .noSpace
  | some 36 => .nameTooLong
  | _ => .other (toString error)

/-- The machine that the program runs on. -/
def realMachine : Machine IO where
  read path := do
    try
      let bytes ← IO.FS.readBinFile path
      match String.fromUTF8? bytes with
      | some text => return .ok text
      | none => return .error .notText
    catch error =>
      return .error (FileFault.ofError error)
  write path text := do
    try
      IO.FS.withFile path .write fun handle => do
        handle.putStr text
        handle.flush
      return .ok ()
    catch error =>
      return .error (FileFault.ofError error)
  print text := IO.print text
  printError text := IO.eprint text

end StyleForest

open StyleForest in
/-- Runs the program on its arguments and reports the outcome. -/
def main (arguments : List String) : IO UInt32 := do
  let filter := LogFilter.ofName (← IO.getEnv "RUST_LOG")
  let succeeds ← Command.runArguments realMachine filter "immutable-styles" arguments
  return if succeeds then 0 else 1
