import Std.Data.TreeMap
import StyleForest.Table.Basic
import StyleForest.Table.Conflict

/-!
# Consistency of a table

Selectors match class attributes exactly, so the selector of a path and the selector of a
longer path that ends in it can match the same element. Every entry of a path is compared with
every entry of each longer path. An index finds the longer paths: it lists, under every proper
suffix of a path of the table, the paths that end in it, in table order.
-/

namespace StyleForest

/-- The longer paths of a table under each of their proper suffixes. -/
structure SuffixIndex where
  longer : Std.TreeMap Path (List Path)

namespace SuffixIndex

/-- The index without paths. -/
def empty : SuffixIndex := ⟨∅⟩

/-- The longer paths that end in the given one, in the order in which they were added. -/
def extending (index : SuffixIndex) (suffix : Path) : List Path :=
  index.longer[suffix]?.getD []

/-- Lists a path under one suffix, after the paths that are listed there. -/
def addUnder (path : Path) (index : SuffixIndex) (suffix : Path) : SuffixIndex :=
  ⟨index.longer.insert suffix (index.extending suffix ++ [path])⟩

/-- Lists a path under all its proper suffixes. -/
def add (index : SuffixIndex) (path : Path) : SuffixIndex :=
  path.properSuffixes.foldl (addUnder path) index

/-- The index of the paths of a table. -/
def ofTable (table : StyleTable) : SuffixIndex :=
  table.paths.foldl add empty

/-- A path added under a suffix is found by looking that suffix up, and by no other look-up. -/
theorem extending_addUnder (path : Path) (index : SuffixIndex) (suffix other : Path) :
    (addUnder path index suffix).extending other =
      index.extending other ++ if suffix = other then [path] else [] := by
  by_cases h : suffix = other
  · subst h
    simp [addUnder, extending]
  · simp [addUnder, extending, Std.TreeMap.getElem?_insert, h]

end SuffixIndex

/-- Two entries to be compared, and the path that is blamed. -/
structure Comparison where
  path : Path
  control : Entry
  candidate : Entry
  deriving DecidableEq, Repr

/-- The conflict that a comparison finds. -/
def Comparison.conflict? (comparison : Comparison) : Option StyleError :=
  comparison.control.conflict? comparison.path comparison.candidate

/-- The comparisons of a longer path with a shorter one: each entry of the longer one in turn
with all entries of the shorter one. -/
def comparisonsOf (longer : Path) (long short : EntryList) : List Comparison :=
  long.entries.flatMap fun candidate => short.entries.map fun control =>
    { path := longer, control, candidate }

namespace StyleTable

/-- All comparisons of a table: for each path in table order, with each longer path that ends in
it. -/
def comparisons (table : StyleTable) : List Comparison :=
  let index := SuffixIndex.ofTable table
  table.toList.flatMap fun (path, short) =>
    (index.extending path).flatMap fun longer =>
      match table.get? longer with
      | some long => comparisonsOf longer long short
      | none => []

/-- The first conflict between the entries of a path and those of a longer one. -/
def inconsistency? (table : StyleTable) : Option StyleError :=
  table.comparisons.findSome? Comparison.conflict?

end StyleTable

end StyleForest
