import StyleForest.Breakpoint
import StyleForest.Declaration.Block
import StyleForest.Location

/-!
# Entries

An entry is a block of declarations for a range of widths. The entries filed under one path
are kept in order; a list that was copied from a base class remembers it, because only such a
list takes new declarations for a range it has into the entry of that range.
-/

namespace StyleForest

/-- A block that holds for a range of widths. -/
structure Entry where
  block : Block
  breakpoint : Breakpoint
  source : Option Location
  deriving DecidableEq, Repr

/-- The entries filed under one path, in order. -/
structure EntryList where
  entries : List Entry
  /-- The entries were copied from a base class. -/
  cloned : Bool
  deriving DecidableEq, Repr

namespace EntryList

/-- The list of one entry that a node has opened. -/
def single (entry : Entry) : EntryList := ⟨[entry], false⟩

/-- The number of entries. -/
def size (list : EntryList) : Nat :=
  list.entries.length

/-- The list has no entries. -/
def isEmpty (list : EntryList) : Bool :=
  list.entries.isEmpty

/-- The same entries, marked as copied from a base class. -/
def clone (list : EntryList) : EntryList :=
  { list with cloned := true }

/-- Appends an entry. -/
def push (list : EntryList) (entry : Entry) : EntryList :=
  { list with entries := list.entries ++ [entry] }

/-- Some entry is for exactly this range. -/
def hasRange (list : EntryList) (range : Breakpoint) : Bool :=
  list.entries.any fun entry => entry.breakpoint = range

/-- Changes the first entry for exactly this range. -/
def modifyRange (range : Breakpoint) (change : Entry → Entry) : List Entry → List Entry
  | [] => []
  | entry :: rest =>
    if entry.breakpoint = range then change entry :: rest
    else entry :: modifyRange range change rest

/-- Folds a block into the first entry for exactly this range. -/
def mergeAt (list : EntryList) (range : Breakpoint) (block : Block) : EntryList :=
  { list with
    entries := modifyRange range (fun entry => { entry with block := entry.block.merge block })
      list.entries }

end EntryList

end StyleForest
