import StyleForest.Selector.Path

/-!
# Selectors

The selector of a path asks of every element on the way down that its class attribute is
exactly the one of the fragment, so `div.grid` does not match an element that carries a
second class.
-/

namespace StyleForest

/-- A piece of a selector. -/
inductive SelectorPart where
  /-- A tag name. -/
  | type (name : String)
  /-- An attribute with exactly this value. -/
  | equals (name value : String)
  /-- The absence of an attribute. -/
  | lacks (name : String)
  /-- A pseudo suffix with its colon. -/
  | pseudo (text : String)
  /-- What follows is a child of what came before. -/
  | child
  deriving DecidableEq, Repr

/-- A selector is its parts in order. -/
structure Selector where
  parts : List SelectorPart
  deriving DecidableEq, Repr

/-- The value of the class attribute: blanks stand for the dots of a class name. -/
def Fragment.classValue (className : String) : String :=
  String.ofList (className.toList.map fun c => if c = '.' then ' ' else c)

/-- The parts that match one fragment. -/
def Fragment.selectorParts (fragment : Fragment) : List SelectorPart :=
  let classPart := match fragment.className with
    | none => SelectorPart.lacks "class"
    | some className => SelectorPart.equals "class" (Fragment.classValue className)
  [.type fragment.element, classPart] ++ (fragment.pseudo.map SelectorPart.pseudo).toList

namespace Selector

/-- The selector of a path: its fragments, each a child of the one before. -/
def ofPath (path : Path) : Selector :=
  ⟨[SelectorPart.child].intercalate (path.fragments.map Fragment.selectorParts)⟩

/-- A selector as it stands in a stylesheet. -/
def render (selector : Selector) : String :=
  String.join (selector.parts.map renderPart)
where
  /-- One part of a selector. -/
  renderPart : SelectorPart → String
    | .type name => name
    | .equals name value => "[" ++ name ++ "=\"" ++ value ++ "\"]"
    | .lacks name => s!":not([{name}])"
    | .pseudo text => text
    | .child => " > "

end Selector

end StyleForest
