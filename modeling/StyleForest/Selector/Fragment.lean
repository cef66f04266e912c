import Std.Data.TreeMap

/-!
# Fragments

A fragment names an element by its tag, its class attribute and a pseudo suffix. A class
written `base.sub` makes it a subclass: the element carries both classes, and its base is
the fragment of the first class alone.
-/

namespace StyleForest

/-- The part of a selector that one node contributes. -/
structure Fragment where
  element : String
  /-- The class attribute; a dot stands between the classes of a subclass. -/
  className : Option String := none
  /-- The pseudo suffix with its colon. -/
  pseudo : Option String := none
  deriving DecidableEq, Repr

namespace Fragment

/-- The text before the first dot and the text after it, if there is a dot. -/
def splitAtDot? (text : List Char) : Option (List Char × List Char) :=
  match text.dropWhile (· ≠ '.') with
  | [] => none
  | _ :: after => some (text.takeWhile (· ≠ '.'), after)

/-- The two halves of a subclass. -/
def subclass? (fragment : Fragment) : Option (String × String) := do
  let className ← fragment.className
  let (base, sub) ← splitAtDot? className.toList
  return (String.ofList base, String.ofList sub)

/-- The fragment of the base class of a subclass; the pseudo suffix is dropped. -/
def base? (fragment : Fragment) : Option Fragment :=
  fragment.subclass?.map fun (base, _) => { element := fragment.element, className := base }

private theorem splitAtDot?_cons (c : Char) (text : List Char) :
    splitAtDot? (c :: text) =
      if c = '.' then some ([], text)
      else (splitAtDot? text).map fun (before, after) => (c :: before, after) := by
  by_cases h : c = '.'
  · simp [splitAtDot?, h]
  · simp only [splitAtDot?, List.dropWhile_cons, List.takeWhile_cons, h, ne_eq,
      not_false_eq_true, decide_true, if_true, if_false]
    split
    · rfl
    · rfl

/-- The text is split at its first dot. -/
theorem splitAtDot?_eq_some_iff {text before after : List Char} :
    splitAtDot? text = some (before, after) ↔ text = before ++ '.' :: after ∧ '.' ∉ before := by
  induction text generalizing before with
  | nil => simp [splitAtDot?]
  | cons c rest ih =>
    rw [splitAtDot?_cons]
    by_cases h : c = '.'
    · cases before with
      | nil => simp [h, eq_comm]
      | cons d before => grind
    · rw [if_neg h, Option.map_eq_some_iff]
      constructor
      · rintro ⟨⟨first, second⟩, hsplit, heq⟩
        cases heq
        obtain ⟨hrest, hfirst⟩ := ih.1 hsplit
        exact ⟨by rw [hrest]; rfl, by simp [Ne.symm h, hfirst]⟩
      · rintro ⟨htext, hbefore⟩
        cases before with
        | nil =>
          cases htext
          exact absurd rfl h
        | cons d before =>
          rw [List.cons_append, List.cons.injEq] at htext
          obtain ⟨rfl, hrest⟩ := htext
          have hdots : '.' ∉ before := fun hmem => hbefore (List.mem_cons_of_mem c hmem)
          exact ⟨(before, after), ih.2 ⟨hrest, hdots⟩, rfl⟩

/-- There is something to split exactly when the text has a dot. -/
theorem splitAtDot?_eq_none_iff {text : List Char} : splitAtDot? text = none ↔ '.' ∉ text := by
  induction text with
  | nil => simp [splitAtDot?]
  | cons c rest ih =>
    rw [splitAtDot?_cons]
    by_cases h : c = '.'
    · simp [h]
    · simp [h, ih, Ne.symm h]

/-- A fragment is no subclass exactly when its class has no dot. -/
theorem subclass?_eq_none_iff {fragment : Fragment} :
    fragment.subclass? = none ↔
      ∀ className, fragment.className = some className → '.' ∉ className.toList := by
  unfold subclass?
  cases fragment.className with
  | none => simp
  | some className =>
    rw [Option.bind_eq_bind, Option.bind_some, Option.bind_eq_bind]
    simp only [Option.some.injEq, forall_eq', ← splitAtDot?_eq_none_iff]
    cases splitAtDot? className.toList with
    | none => simp
    | some halves => simp

/-- A base is no subclass itself, because a class is split at its first dot. -/
theorem subclass?_of_base? {fragment base : Fragment} (h : fragment.base? = some base) :
    base.subclass? = none := by
  obtain ⟨⟨first, sub⟩, hsub, rfl⟩ := Option.map_eq_some_iff.1 h
  obtain ⟨className, _, hclass⟩ := Option.bind_eq_some_iff.1 hsub
  obtain ⟨⟨before, after⟩, hsplit, heq⟩ := Option.bind_eq_some_iff.1 hclass
  cases heq
  rw [subclass?_eq_none_iff]
  rintro _ ⟨⟩
  simpa using (splitAtDot?_eq_some_iff.1 hsplit).2

/-- A subclass is not its own base. -/
theorem ne_of_base? {fragment base : Fragment} (h : fragment.base? = some base) :
    base ≠ fragment := by
  rintro rfl
  have hnone : base.base? = none := by rw [base?, subclass?_of_base? h, Option.map_none]
  rw [hnone] at h
  cases h

/-- A fragment as it is shown in messages. -/
def render (fragment : Fragment) : String :=
  fragment.element ++ (fragment.className.map ("." ++ ·)).getD "" ++ fragment.pseudo.getD ""

/-- Fragments are ordered field by field. -/
abbrev order : Fragment → Fragment → Ordering :=
  compareLex (compareOn Fragment.element)
    (compareLex (compareOn Fragment.className) (compareOn Fragment.pseudo))

/-- Only equal fragments stand at the same place in the order. -/
theorem order_eq_iff {left right : Fragment} : order left right = .eq ↔ left = right := by
  cases left
  cases right
  simp [order, compareLex_eq_eq, compareOn]

instance : Ord Fragment := ⟨order⟩

instance : Std.TransOrd Fragment := inferInstanceAs (Std.TransCmp order)

instance : Std.LawfulEqOrd Fragment where
  compare_self := order_eq_iff.2 rfl
  eq_of_compare h := order_eq_iff.1 h

end Fragment

end StyleForest
