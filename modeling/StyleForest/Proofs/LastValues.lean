import Mathlib.Data.List.Induction
import Mathlib.Data.List.Nodup
import Std.Data.TreeMap.Lemmas

/-!
# The last value of a name

Pairs of a name and a value are put down one after the other, and a later value takes the place of
an earlier one of the same name. What is found under a name in the end is the value of the last
pair of that name (`lastValue?`), however the pairs are kept; when no name repeats, the order of the
pairs is of no matter.
-/

namespace StyleForest

variable {α β : Type} [DecidableEq α]

/-- The value of the last pair with a name. -/
def lastValue? (pairs : List (α × β)) (name : α) : Option β :=
  pairs.reverse.lookup name

/-- The last pair decides the value of its name. -/
theorem lastValue?_concat (pairs : List (α × β)) (pair : α × β) (name : α) :
    lastValue? (pairs ++ [pair]) name =
      if name = pair.1 then some pair.2 else lastValue? pairs name := by
  obtain ⟨key, value⟩ := pair
  rw [lastValue?, List.reverse_append, List.reverse_singleton, List.singleton_append,
    List.lookup_cons]
  by_cases h : name = key
  · simp [h]
  · rw [beq_false_of_ne h, if_neg h]
    rfl

/-- The last value of a name is the value of a pair. -/
theorem mem_of_lastValue? {pairs : List (α × β)} {name : α} {value : β}
    (h : lastValue? pairs name = some value) : (name, value) ∈ pairs := by
  obtain ⟨before, after, hpairs, -⟩ := List.lookup_eq_some_iff.1 h
  rw [← List.mem_reverse, hpairs]
  exact List.mem_append_right before List.mem_cons_self

/-- Pairs of a name are found under it. -/
theorem exists_lastValue? {pairs : List (α × β)} {pair : α × β} (h : pair ∈ pairs) :
    ∃ value, lastValue? pairs pair.1 = some value := by
  rw [← Option.isSome_iff_exists, lastValue?, List.lookup_isSome_iff]
  exact ⟨pair, List.mem_reverse.2 h, beq_self_eq_true _⟩

/-- When no name repeats, every pair is the last one of its name. -/
theorem lastValue?_eq_some_iff_mem {pairs : List (α × β)} (h : (pairs.map Prod.fst).Nodup)
    {name : α} {value : β} : lastValue? pairs name = some value ↔ (name, value) ∈ pairs := by
  refine ⟨mem_of_lastValue?, fun hmem => ?_⟩
  obtain ⟨found, hfound⟩ := exists_lastValue? hmem
  have hsame : (name, found) = (name, value) :=
    List.inj_on_of_nodup_map h (mem_of_lastValue? hfound) hmem rfl
  rw [hfound, (Prod.mk.inj hsame).2]

/-- The order of pairs with different names does not matter. -/
theorem lastValue?_perm {pairs other : List (α × β)} (hperm : pairs.Perm other)
    (h : (pairs.map Prod.fst).Nodup) (name : α) :
    lastValue? other name = lastValue? pairs name := by
  have hother : (other.map Prod.fst).Nodup := (hperm.map Prod.fst).nodup_iff.1 h
  ext value
  rw [lastValue?_eq_some_iff_mem hother, lastValue?_eq_some_iff_mem h, hperm.mem_iff]

/-- Leaving out the pairs of one name leaves what is found under the others. -/
theorem lastValue?_filter_ne (pairs : List (α × β)) (removed name : α) :
    lastValue? (pairs.filter fun pair => pair.1 ≠ removed) name =
      if name = removed then none else lastValue? pairs name := by
  induction pairs using List.reverseRecOn with
  | nil => simp [lastValue?]
  | append_singleton pairs pair ih =>
    rw [List.filter_append, List.filter_singleton, lastValue?_concat]
    by_cases hpair : pair.1 = removed
    · have hdropped : decide (pair.1 ≠ removed) = false := by simp [hpair]
      rw [hdropped, Bool.cond_false, List.append_nil, ih, hpair]
      split
      · rfl
      · rfl
    · have hkept : decide (pair.1 ≠ removed) = true := by simp [hpair]
      rw [hkept, Bool.cond_true, lastValue?_concat, ih]
      by_cases hname : name = pair.1
      · rw [if_pos hname, if_pos hname, if_neg (hname ▸ hpair)]
      · rw [if_neg hname, if_neg hname]

section TreeMap

variable [Ord α] [Std.TransOrd α] [Std.LawfulEqOrd α]

/-- A map of pairs that are inserted one by one holds the last value of each name. -/
theorem getElem?_insertMany (pairs : List (α × β)) (name : α) :
    ((∅ : Std.TreeMap α β).insertMany pairs)[name]? = lastValue? pairs name := by
  induction pairs using List.reverseRecOn with
  | nil => simp [lastValue?]
  | append_singleton pairs pair ih =>
    obtain ⟨key, value⟩ := pair
    rw [Std.TreeMap.insertMany_append, Std.TreeMap.insertMany_list_singleton,
      Std.TreeMap.getElem?_insert, ih, lastValue?_concat]
    by_cases h : name = key
    · simp [h]
    · simp [h, Ne.symm h]

end TreeMap

end StyleForest
