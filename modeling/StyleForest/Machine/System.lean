import StyleForest.Machine.FileTree

/-!
# The standard files of a machine

The devices and the links to them that a program can meet on every machine, with the directories
that lead there. The program is started in a directory of its own, below the one for temporary
files.
-/

namespace StyleForest.FileTree

/-- The directories below the root. -/
def standardDirectories : List String :=
  ["dev", "proc", "proc/self", "proc/self/fd", "sys", "tmp"]

/-- The devices below the root. A program reads nothing from its standard input. -/
def standardDevices : List (String × Device) :=
  [("dev/full", .full), ("dev/null", .null), ("dev/random", .null), ("dev/tty", .terminal),
    ("dev/urandom", .null), ("dev/zero", .null), ("proc/self/fd/0", .null),
    ("proc/self/fd/1", .output), ("proc/self/fd/2", .errorOutput)]

/-- The directory that a program is started in. -/
def standardStart : Place :=
  Place.below "tmp/work"

/-- The links below the root. -/
def standardLinks : List (String × Place) :=
  [("dev/fd", Place.below "proc/self/fd"), ("dev/stdin", Place.below "proc/self/fd/0"),
    ("dev/stdout", Place.below "proc/self/fd/1"), ("dev/stderr", Place.below "proc/self/fd/2"),
    ("proc/self/cwd", standardStart), ("proc/self/root", Place.root)]

/-- A machine with the standard files only. -/
def standard : FileTree where
  start := standardStart
  files := Std.TreeMap.ofList <|
    standardDevices.map fun (path, device) => (Place.below path, FileContents.device device)
  directories := standardStart :: standardDirectories.map Place.below
  links := standardLinks.map fun (path, place) => (Place.below path, place)
  sealed := [(Place.below "proc", .notFound), (Place.below "sys", .notPermitted)]

/-- A machine that holds files at the given paths, and the directories above them, beside the
standard files. -/
def ofFiles (files : List (String × FileContents)) : FileTree :=
  files.foldl (fun tree (path, contents) => tree.add path contents) standard

end StyleForest.FileTree
