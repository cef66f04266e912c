import StyleForest.Selector.Path
import StyleForest.Tree.Node

/-!
# Visits

Walking a tree from the top visits every node before its children and the children in order.
A visit holds what the node says and what its ancestors have settled: the path of its parent
and the scope it is in. A node that declares a range of widths opens a scope for everything
below it.
-/

namespace StyleForest

/-- The range of widths that an ancestor has declared. -/
structure Scope where
  breakpoint : Breakpoint
  /-- The path of the node that declared it. -/
  setBy : Path
  source : Option Location
  deriving DecidableEq, Repr

/-- A node on the walk. -/
structure Visit where
  parent : Option Path
  scope : Option Scope
  element : String
  attributes : Attributes
  declarations : String
  deriving DecidableEq, Repr

namespace Visit

/-- The fragment of the node. -/
def fragment (visit : Visit) : Fragment :=
  { element := visit.element
    className := visit.attributes.className
    pseudo := visit.attributes.pseudo }

/-- The path of the node. -/
def path (visit : Visit) : Path :=
  Path.under visit.parent visit.fragment

/-- Where the node was written. -/
def source (visit : Visit) : Option Location :=
  visit.attributes.source

/-- The scope of the children: the one the node opens, or else the one it is in. -/
def innerScope (visit : Visit) : Option Scope :=
  match visit.attributes.breakpoint? with
  | some breakpoint => some { breakpoint, setBy := visit.path, source := visit.source }
  | none => visit.scope

/-- The range the declarations of the node hold for. A scope inside a scope is refused. -/
def breakpoint (visit : Visit) : Except StyleError Breakpoint :=
  match visit.scope, visit.attributes.breakpoint? with
  | some scope, some _ =>
    .error ⟨.nestedMediaQuery visit.path.render scope.setBy.render scope.breakpoint scope.source,
      visit.source⟩
  | some scope, none => .ok scope.breakpoint
  | none, some own => .ok own
  | none, none => .ok Breakpoint.unbounded

/-- A node takes its own range or else the one of its scope, and must not have both. -/
theorem breakpoint_eq_ok_iff {visit : Visit} {range : Breakpoint} :
    visit.breakpoint = .ok range ↔
      (visit.attributes.breakpoint? = none ∨ visit.scope = none) ∧
        range = (visit.attributes.breakpoint?.or (visit.scope.map Scope.breakpoint)).getD
          Breakpoint.unbounded := by
  unfold breakpoint
  cases visit.scope with
  | none =>
    cases visit.attributes.breakpoint? with
    | none => simp [eq_comm]
    | some own => simp [eq_comm]
  | some scope =>
    cases visit.attributes.breakpoint? with
    | none => simp [eq_comm]
    | some own => simp

end Visit

mutual

/-- The visits of a tree below a parent, inside a scope. -/
def Node.visits (parent : Option Path) (scope : Option Scope) : Node → List Visit
  | .mk element attributes declarations children =>
    let visit : Visit := { parent, scope, element, attributes, declarations }
    visit :: Node.visitsOfAll (some visit.path) visit.innerScope children

/-- The visits of trees in a row. -/
def Node.visitsOfAll (parent : Option Path) (scope : Option Scope) : List Node → List Visit
  | [] => []
  | node :: rest => Node.visits parent scope node ++ Node.visitsOfAll parent scope rest

end

/-- Trees in a row are visited one part after the other. -/
theorem Node.visitsOfAll_append (parent : Option Path) (scope : Option Scope)
    (first second : List Node) :
    Node.visitsOfAll parent scope (first ++ second) =
      Node.visitsOfAll parent scope first ++ Node.visitsOfAll parent scope second := by
  induction first with
  | nil => rfl
  | cons node rest ih =>
    rw [List.cons_append, Node.visitsOfAll, ih, Node.visitsOfAll, List.append_assoc]

end StyleForest
