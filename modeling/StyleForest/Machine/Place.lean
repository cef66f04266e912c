/-!
# Places

A path is a text, and where it leads depends on the files around it. A place is the result: the
names that lead from the root down to a file or a directory, with nothing left to follow.
-/

namespace StyleForest

/-- The names that lead from the root to a file or a directory. -/
abbrev Place := List String

namespace Place

/-- The directory above all others. -/
def root : Place := []

/-- The directory that holds a place; the root holds itself. -/
def parent (place : Place) : Place :=
  place.dropLast

/-- The pieces of a text between slashes. -/
def splitSlashes : List Char → List (List Char)
  | [] => [[]]
  | c :: rest =>
    if c = '/' then
      [] :: splitSlashes rest
    else
      match splitSlashes rest with
      | [] => [[c]]
      | piece :: pieces => (c :: piece) :: pieces

/-- The names of a path; two slashes in a row have an empty name between them. -/
def namesOf (path : String) : List String :=
  (splitSlashes path.toList).map String.ofList

/-- A path that starts with a slash starts from the root, any other from the working directory. -/
def isAbsolute (path : String) : Bool :=
  path.toList.head? = some '/'

/-- A path without the slashes at its end. -/
def dropSlashes (path : String) : String :=
  String.ofList (path.toList.reverse.dropWhile (· = '/')).reverse

/-- The name stays where it is. -/
def isStay (name : String) : Bool :=
  name = "" || name = "."

/-- The place one name further, if all names are taken for directories. -/
def enter (place : Place) (name : String) : Place :=
  if isStay name then place else if name = ".." then place.parent else place ++ [name]

/-- The places that names lead through from a place on, the last one included. -/
def visited (place : Place) : List String → List Place
  | [] => [place]
  | name :: rest => place :: visited (place.enter name) rest

/-- The place of a path below the root, if all names are taken for directories. -/
def below (path : String) : Place :=
  (namesOf path).foldl enter root

end Place

end StyleForest
