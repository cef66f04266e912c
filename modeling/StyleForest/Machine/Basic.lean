/-!
# Machines

What a program needs of the machine it runs on: to read the text of a path, to write a text to a
path, and to print on two outputs. Reading and writing may fail for a stated reason. Whether the
machine is a real one or a model is left open.
-/

namespace StyleForest

/-- The reason why a file is not read or written. -/
inductive FileFault where
  | notFound
  /-- There is a device file, but nothing behind it. -/
  | noDevice
  | notPermitted
  | notDirectory
  | isDirectory
  | noSpace
  | nameTooLong
  /-- The bytes of the file are no text. -/
  | notText
  /-- Any other reason, in the words of the machine. -/
  | other (reason : String)
  deriving DecidableEq, Repr

/-- The wording of a fault. -/
def FileFault.message : FileFault → String
  | .notFound => "No such file or directory (os error 2)"
  | .noDevice => "No such device or address (os error 6)"
  | .notPermitted => "Permission denied (os error 13)"
  | .notDirectory => "Not a directory (os error 20)"
  | .isDirectory => "Is a directory (os error 21)"
  | .noSpace => "No space left on device (os error 28)"
  | .nameTooLong => "File name too long (os error 36)"
  | .notText => "stream did not contain valid UTF-8"
  | .other reason => reason

/-- What a program can do on a machine. -/
structure Machine (m : Type → Type) where
  /-- Reads the text of the file at a path. -/
  read (path : String) : m (Except FileFault String)
  /-- Writes a text to the file at a path, in place of what the file held. -/
  write (path text : String) : m (Except FileFault Unit)
  /-- Prints a text on the standard output. -/
  print (text : String) : m Unit
  /-- Prints a text on the error output. -/
  printError (text : String) : m Unit

end StyleForest
