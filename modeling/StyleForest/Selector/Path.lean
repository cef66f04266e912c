import StyleForest.Selector.Fragment

/-!
# Paths

A path lists the fragments from the root of a style tree down to a node. It is the key under
which the declarations of the node are filed. A path can end in a shorter one, and the
selectors of both may then match the same element.
-/

namespace StyleForest

/-- The fragments from a root down to a node. -/
structure Path where
  fragments : List Fragment
  deriving DecidableEq, Repr

/-- The endings of a list that are not empty, the longest first. -/
def endings {α : Type} : List α → List (List α)
  | [] => []
  | a :: rest => (a :: rest) :: endings rest

/-- The endings of a list are its suffixes that are not empty. -/
theorem mem_endings_iff {α : Type} {ending list : List α} :
    ending ∈ endings list ↔ ending ≠ [] ∧ ending <:+ list := by
  induction list with
  | nil => simp [endings]
  | cons a rest ih =>
    simp only [endings, List.mem_cons, ih, List.suffix_cons_iff]
    grind

namespace Path

/-- The path of a node at the top of a tree. -/
def root (fragment : Fragment) : Path := ⟨[fragment]⟩

/-- The path of a child. -/
def child (path : Path) (fragment : Fragment) : Path :=
  ⟨path.fragments ++ [fragment]⟩

/-- The path of a child of a node, or of a root if there is no such node. -/
def under (parent : Option Path) (fragment : Fragment) : Path :=
  match parent with
  | some parent => parent.child fragment
  | none => root fragment

/-- The number of fragments. -/
def size (path : Path) : Nat :=
  path.fragments.length

/-- The path has no fragments. -/
def isEmpty (path : Path) : Bool :=
  path.fragments.isEmpty

/-- The first fragment of the path is the given one. -/
def startsWith (path : Path) (fragment : Fragment) : Bool :=
  path.fragments.head? == some fragment

/-- The path with another first fragment. -/
def rebase (path : Path) (fragment : Fragment) : Path :=
  match path.fragments with
  | [] => path
  | _ :: below => ⟨fragment :: below⟩

/-- The shorter paths the path ends in, the shortest first. -/
def properSuffixes (path : Path) : List Path :=
  (endings path.fragments.tail).reverse.map Path.mk

/-- A path as it is shown in messages. -/
def render (path : Path) : String :=
  " ".intercalate (path.fragments.map Fragment.render)

/-- Paths are ordered by their fragments. -/
abbrev order : Path → Path → Ordering :=
  compareOn Path.fragments

/-- Only equal paths stand at the same place in the order. -/
theorem order_eq_iff {left right : Path} : order left right = .eq ↔ left = right := by
  cases left
  cases right
  simp [order, compareOn]

instance : Ord Path := ⟨order⟩

instance : Std.TransOrd Path := inferInstanceAs (Std.TransCmp order)

instance : Std.LawfulEqOrd Path where
  compare_self := order_eq_iff.2 rfl
  eq_of_compare h := order_eq_iff.1 h

end Path

end StyleForest
