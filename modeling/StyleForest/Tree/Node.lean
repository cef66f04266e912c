import StyleForest.Selector.Fragment
import StyleForest.Tree.Attributes

/-!
# Style trees

A node of a style tree has an element, attributes, a declaration text and children. A
forest is a list of such trees.
-/

namespace StyleForest

/-- A node with everything below it. -/
inductive Node where
  | mk (element : String) (attributes : Attributes) (declarations : String) (children : List Node)
  deriving Repr

instance : Inhabited Node := ⟨.mk "" {} "" []⟩

/-- What a node is built from: declaration texts and children in any order. -/
inductive NodeItem where
  | text (text : String)
  | node (node : Node)
  deriving Repr

namespace Node

/-- The tag of the node. -/
def element : Node → String
  | mk element .. => element

/-- The attributes of the node. -/
def attributes : Node → Attributes
  | mk _ attributes .. => attributes

/-- The declaration text of the node. -/
def declarations : Node → String
  | mk _ _ declarations _ => declarations

/-- The children of the node, in order. -/
def children : Node → List Node
  | mk _ _ _ children => children

/-- A node from its items: the texts are joined, the nodes are its children. -/
def ofItems (element : String) (attributes : Attributes) (items : List NodeItem) : Node :=
  mk element attributes
    (String.join (items.filterMap fun | .text text => some text | .node _ => none))
    (items.filterMap fun | .text _ => none | .node node => some node)

/-- The fragment under which the node files its declarations. -/
def fragment (node : Node) : Fragment :=
  { element := node.element
    className := node.attributes.className
    pseudo := node.attributes.pseudo }

end Node

end StyleForest
