import Mathlib.Data.List.Nodup
import StyleForest.Forest.Consistency
import StyleForest.Proofs.Compatibility
import StyleForest.Proofs.Steps

/-!
# The consistency check as a plain scan

The check of a table looks the longer paths of a path up in an index. Under every path the index
lists exactly the paths of the table that properly end in it, each once and in table order
(`SuffixIndex.extending_ofTable`). So the check finds the conflict that a plain scan of all pairs
of rows meets first, and finds none exactly when the entries of all such pairs are compatible.
-/

namespace StyleForest

/-- The longer path ends in the shorter one, which is not empty. -/
def Path.ProperSuffix (short long : Path) : Prop :=
  short.fragments ≠ [] ∧ short.fragments <:+ long.fragments ∧ short ≠ long

instance : DecidableRel Path.ProperSuffix := fun short long =>
  inferInstanceAs (Decidable (_ ∧ short.fragments <:+ long.fragments ∧ _))

/-- A list is longer than each ending of what follows its first element, so its endings are all
different. -/
theorem nodup_endings {α : Type} (list : List α) : (endings list).Nodup := by
  induction list with
  | nil => exact List.nodup_nil
  | cons a rest ih =>
    rw [endings, List.nodup_cons]
    refine ⟨fun hmem => ?_, ih⟩
    have hlength := (mem_endings_iff.1 hmem).2.length_le
    rw [List.length_cons] at hlength
    omega

namespace Path

/-- The proper suffixes that a path is listed under are its shorter endings. -/
theorem mem_properSuffixes_iff {short long : Path} :
    short ∈ long.properSuffixes ↔ short.ProperSuffix long := by
  obtain ⟨short⟩ := short
  obtain ⟨long⟩ := long
  have unwrap : Path.mk short ∈ properSuffixes ⟨long⟩ ↔ short ∈ endings long.tail := by
    simp [properSuffixes]
  rw [unwrap, mem_endings_iff, ProperSuffix]
  refine and_congr_right fun hne => ?_
  cases long with
  | nil => simp [hne]
  | cons first below =>
    rw [List.tail_cons, List.suffix_cons_iff, ne_eq, Path.mk.injEq]
    constructor
    · intro hsuffix
      refine ⟨Or.inr hsuffix, ?_⟩
      rintro rfl
      have hlength := hsuffix.length_le
      rw [List.length_cons] at hlength
      omega
    · rintro ⟨heq | hsuffix, hdiffer⟩
      · exact absurd heq hdiffer
      · exact hsuffix

/-- No two proper suffixes of a path are the same. -/
theorem nodup_properSuffixes (path : Path) : path.properSuffixes.Nodup := by
  rw [properSuffixes, List.Nodup, List.pairwise_map]
  refine (List.nodup_reverse.2 (nodup_endings _)).imp fun hne heq => ?_
  exact hne (Path.mk.inj heq)

end Path

namespace SuffixIndex

@[simp] theorem extending_empty (suffix : Path) : empty.extending suffix = [] := by
  simp [empty, extending]

/-- Listing a path under several suffixes lists it under one of them as often as that one occurs. -/
theorem extending_foldl_addUnder (path : Path) (suffixes : List Path) (index : SuffixIndex)
    (suffix : Path) :
    (suffixes.foldl (addUnder path) index).extending suffix =
      index.extending suffix ++ List.replicate (suffixes.count suffix) path := by
  induction suffixes generalizing index with
  | nil => simp
  | cons other rest ih =>
    rw [List.foldl_cons, ih, extending_addUnder, List.append_assoc, List.count_cons]
    by_cases h : other = suffix
    · simp [h, ← List.replicate_succ]
    · simp [h]

/-- A path is listed once under each of its proper suffixes. -/
theorem extending_add (index : SuffixIndex) (path suffix : Path) :
    (index.add path).extending suffix =
      index.extending suffix ++ if suffix.ProperSuffix path then [path] else [] := by
  rw [add, extending_foldl_addUnder, (Path.nodup_properSuffixes path).count]
  simp only [Path.mem_properSuffixes_iff]
  split
  · rfl
  · rfl

/-- The index lists the longer paths of a table in table order. -/
theorem extending_ofTable (table : StyleTable) (suffix : Path) :
    (ofTable table).extending suffix =
      table.paths.filter fun path => suffix.ProperSuffix path := by
  have listed (paths : List Path) (index : SuffixIndex) :
      (paths.foldl add index).extending suffix =
        index.extending suffix ++ paths.filter fun path => suffix.ProperSuffix path := by
    induction paths generalizing index with
    | nil => simp
    | cons path rest ih =>
      rw [List.foldl_cons, ih, extending_add, List.append_assoc, List.filter_cons]
      by_cases h : suffix.ProperSuffix path
      · simp [h]
      · simp [h]
  rw [ofTable, listed, extending_empty, List.nil_append]

end SuffixIndex

private theorem findSome?_filter {α β : Type} (f : α → Option β) (p : α → Bool) (list : List α) :
    (list.filter p).findSome? f = list.findSome? fun a => if p a then f a else none := by
  induction list with
  | nil => rfl
  | cons a rest ih =>
    rw [List.filter_cons, List.findSome?_cons, ← ih]
    split
    · rw [List.findSome?_cons]
    · rfl

namespace StyleTable

/-- The conflict that a plain scan meets first: it takes every path in table order with every
longer path that ends in it, and each entry of the longer one with all entries of the shorter
one. -/
def scan? (table : StyleTable) : Option StyleError :=
  table.toList.findSome? fun (path, short) =>
    table.toList.findSome? fun (longer, long) =>
      if path.ProperSuffix longer then
        long.entries.findSome? fun candidate =>
          short.entries.findSome? fun control => control.conflict? longer candidate
      else
        none

/-- The comparisons of a table, with the longer rows read off the table in place of the index. -/
theorem comparisons_eq (table : StyleTable) :
    table.comparisons =
      table.toList.flatMap fun short =>
        (table.toList.filter fun long => short.1.ProperSuffix long.1).flatMap fun long =>
          comparisonsOf long.1 long.2 short.2 := by
  unfold comparisons
  apply List.flatMap_congr
  intro short _
  dsimp only
  rw [SuffixIndex.extending_ofTable, paths, List.filter_map, List.flatMap_map]
  apply List.flatMap_congr
  intro long hlong
  rw [get?_eq_some_iff.2 (List.mem_filter.1 hlong).1]

/-- The first conflict among the comparisons of two lists. -/
theorem findSome?_comparisonsOf (longer : Path) (long short : EntryList) :
    (comparisonsOf longer long short).findSome? Comparison.conflict? =
      long.entries.findSome? fun candidate =>
        short.entries.findSome? fun control => control.conflict? longer candidate := by
  rw [comparisonsOf, findSome?_flatMap]
  simp only [List.findSome?_map]
  rfl

/-- The check with an index finds what the plain scan finds. -/
theorem inconsistency?_eq_scan? (table : StyleTable) : table.inconsistency? = table.scan? := by
  rw [inconsistency?, comparisons_eq, findSome?_flatMap]
  simp only [findSome?_flatMap, findSome?_filter, findSome?_comparisonsOf, decide_eq_true_eq]
  rfl

/-- The scan finds nothing exactly when no entry conflicts with one of a longer path. -/
theorem scan?_eq_none_iff {table : StyleTable} :
    table.scan? = none ↔
      ∀ (short long : Path) (shortList longList : EntryList),
        table.get? short = some shortList → table.get? long = some longList →
        short.ProperSuffix long →
        ∀ control ∈ shortList.entries, ∀ candidate ∈ longList.entries,
          control.conflict? long candidate = none := by
  simp only [scan?, List.findSome?_eq_none_iff, ite_eq_right_iff, get?_eq_some_iff]
  constructor
  · intro h short long shortList longList hshort hlong hsuffix control hcontrol candidate hcandidate
    exact h _ hshort _ hlong hsuffix candidate hcandidate control hcontrol
  · intro h shortRow hshort longRow hlong hsuffix candidate hcandidate control hcontrol
    exact h _ _ _ _ hshort hlong hsuffix control hcontrol candidate hcandidate

/-- The check of a table with the index of suffixes agrees with the plain scan: it finds the
same conflict first, it finds none exactly when all entries of a path pass the check against all
entries of each longer path that ends in it, and the index it uses lists under every path exactly
those longer paths, each once and in table order. -/
theorem inconsistency?_agrees_with_scan (table : StyleTable) :
    table.inconsistency? = table.scan? ∧
      (table.inconsistency? = none ↔
        ∀ (short long : Path) (shortList longList : EntryList),
          table.get? short = some shortList → table.get? long = some longList →
          short.ProperSuffix long →
          ∀ control ∈ shortList.entries, ∀ candidate ∈ longList.entries,
            control.conflict? long candidate = none) ∧
      ∀ suffix : Path,
        (SuffixIndex.ofTable table).extending suffix =
            (table.paths.filter fun path => suffix.ProperSuffix path) ∧
          ((SuffixIndex.ofTable table).extending suffix).Nodup := by
  refine ⟨inconsistency?_eq_scan? table, ?_, fun suffix => ⟨?_, ?_⟩⟩
  · rw [inconsistency?_eq_scan?, scan?_eq_none_iff]
  · exact SuffixIndex.extending_ofTable table suffix
  · rw [SuffixIndex.extending_ofTable]
    exact table.nodup_paths.filter _

end StyleTable

end StyleForest
