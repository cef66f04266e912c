import Std.Data.TreeMap
import StyleForest.Machine.Basic
import StyleForest.Machine.Place

/-!
# File trees

The files, directories and links of a machine. A path is walked name by name: every name but the
last has to lead to a directory, and a link is followed wherever it is met. Writing creates files
but no directories.
-/

namespace StyleForest

/-- What stands behind a device file. -/
inductive Device where
  /-- Takes everything and holds nothing. -/
  | null
  /-- Has room for nothing. -/
  | full
  /-- The terminal of the program, which has none. -/
  | terminal
  /-- The standard output of the program. -/
  | output
  /-- The error output of the program. -/
  | errorOutput
  deriving DecidableEq, Repr

/-- What a file holds. -/
inductive FileContents where
  | text (text : String)
  /-- Bytes that are no text. -/
  | binary
  | device (device : Device)
  deriving DecidableEq, Repr

/-- The contents that bytes are. -/
def FileContents.ofBytes (bytes : ByteArray) : FileContents :=
  match String.fromUTF8? bytes with
  | some decoded => .text decoded
  | none => .binary

/-- The files of a machine by their places. -/
structure FileTree where
  /-- The working directory, where relative paths start. -/
  start : Place
  files : Std.TreeMap Place FileContents
  directories : List Place
  /-- The places of links and where they lead, which is never to a link. -/
  links : List (Place × Place)
  /-- The directories below which no file can be created, with the fault that says so. -/
  sealed : List (Place × FileFault)

namespace FileTree

/-- The largest number of bytes in a name. -/
def nameLimit : Nat := 255

/-- The largest number of bytes in a path. -/
def pathLimit : Nat := 4095

/-- The place is one of a file. -/
def isFile (tree : FileTree) (place : Place) : Bool :=
  tree.files.contains place

/-- The place is one of a directory. -/
def isDirectory (tree : FileTree) (place : Place) : Bool :=
  place = Place.root || tree.directories.contains place

/-- Where the walk along a path begins. -/
def startOf (tree : FileTree) (path : String) : Place :=
  if Place.isAbsolute path then Place.root else tree.start

/-- Where a place leads: to the target of a link, or to itself. -/
def follow (tree : FileTree) (place : Place) : Place :=
  (tree.links.lookup place).getD place

/-- One step along a path, which must start from a directory. -/
def enter (tree : FileTree) (place : Place) (name : String) : Except FileFault Place :=
  if tree.isFile place then .error .notDirectory
  else if !tree.isDirectory place then .error .notFound
  else if nameLimit < name.utf8ByteSize then .error .nameTooLong
  else .ok (tree.follow (place.enter name))

/-- A path must be neither empty nor too long. -/
def checkPath (path : String) : Except FileFault Unit :=
  if path.isEmpty then .error .notFound
  else if pathLimit < path.utf8ByteSize then .error .nameTooLong
  else .ok ()

/-- Where a path leads; its last name need not be there. -/
def resolve (tree : FileTree) (path : String) : Except FileFault Place := do
  checkPath path
  (Place.namesOf path).foldlM tree.enter (tree.startOf path)

/-- The directory that the last name of a path is to be found in. Slashes at the end of the path do
not count, and the last name is not looked at. -/
def resolveParent (tree : FileTree) (path : String) : Except FileFault Place := do
  checkPath path
  let names := (Place.namesOf (Place.dropSlashes path)).dropLast
  (names ++ ["."]).foldlM tree.enter (tree.startOf path)

/-- The text of the file at a path. A device has nothing to read. -/
def read (tree : FileTree) (path : String) : Except FileFault String := do
  let place ← tree.resolve path
  match tree.files[place]? with
  | some (.text text) => .ok text
  | some .binary => .error .notText
  | some (.device .terminal) => .error .noDevice
  | some (.device _) => .ok ""
  | none => .error (if tree.isDirectory place then .isDirectory else .notFound)

/-- The fault of creating a file at a place, if none can be created there. -/
def sealedBy? (tree : FileTree) (place : Place) : Option FileFault :=
  (tree.sealed.find? fun (directory, _) => directory.isPrefixOf place).map Prod.snd

/-- The place that writing to a path goes to. A path that ends in a slash means a directory,
whatever there is. -/
def target (tree : FileTree) (path : String) : Except FileFault Place :=
  if Place.dropSlashes path = path then do
    let place ← tree.resolve path
    if tree.isDirectory place then .error .isDirectory
    else if tree.isFile place then .ok place
    else
      match tree.sealedBy? place with
      | some fault => .error fault
      | none => .ok place
  else do
    let _ ← tree.resolveParent path
    .error .isDirectory

/-- The tree with a text as the file at a place. -/
def put (tree : FileTree) (place : Place) (text : String) : FileTree :=
  { tree with files := tree.files.insert place (.text text) }

/-- Adds a file at a path, with all directories on the way. -/
def add (tree : FileTree) (path : String) (contents : FileContents) : FileTree :=
  let names := Place.namesOf path
  let place := names.foldl Place.enter (tree.startOf path)
  { tree with
    files := tree.files.insert place contents
    directories := Place.visited (tree.startOf path) names.dropLast ++ tree.directories }

end FileTree

end StyleForest
