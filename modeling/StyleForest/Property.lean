import StyleForest.Text.LetterCase

/-!
# Property tables

Two facts about the properties of a stylesheet, kept as data: the elements a restricted
property may be used on, and the longhands that a shorthand sets anew when it is
declared. Names are looked up without regard to letter case.
-/

namespace StyleForest.Property

/-- The properties that only some elements may use, with those elements. -/
def restrictions : List (String × List String) :=
  [("table-layout", ["table"]),
   ("border-collapse", ["table"]),
   ("border-spacing", ["table"]),
   ("caption-side", ["table"]),
   ("empty-cells", ["td", "th"]),
   ("list-style", ["ul", "ol", "li"]),
   ("list-style-type", ["ul", "ol", "li"]),
   ("list-style-position", ["ul", "ol", "li"]),
   ("list-style-image", ["ul", "ol", "li"]),
   ("object-fit", ["img", "video", "iframe", "embed", "object", "canvas"]),
   ("object-position", ["img", "video", "iframe", "embed", "object", "canvas"])]

/-- The shorthands with the longhands each of them sets. -/
def shorthands : List (String × List String) :=
  [("margin", ["margin-top", "margin-right", "margin-bottom", "margin-left"]),
   ("padding", ["padding-top", "padding-right", "padding-bottom", "padding-left"]),
   ("inset", ["top", "right", "bottom", "left"]),
   ("border",
    ["border-top", "border-right", "border-bottom", "border-left",
     "border-width", "border-style", "border-color",
     "border-top-width", "border-right-width", "border-bottom-width", "border-left-width",
     "border-top-style", "border-right-style", "border-bottom-style", "border-left-style",
     "border-top-color", "border-right-color", "border-bottom-color", "border-left-color"]),
   ("border-top", ["border-top-width", "border-top-style", "border-top-color"]),
   ("border-right", ["border-right-width", "border-right-style", "border-right-color"]),
   ("border-bottom", ["border-bottom-width", "border-bottom-style", "border-bottom-color"]),
   ("border-left", ["border-left-width", "border-left-style", "border-left-color"]),
   ("border-width",
    ["border-top-width", "border-right-width", "border-bottom-width", "border-left-width"]),
   ("border-style",
    ["border-top-style", "border-right-style", "border-bottom-style", "border-left-style"]),
   ("border-color",
    ["border-top-color", "border-right-color", "border-bottom-color", "border-left-color"]),
   ("border-radius",
    ["border-top-left-radius", "border-top-right-radius",
     "border-bottom-right-radius", "border-bottom-left-radius"]),
   ("outline", ["outline-color", "outline-style", "outline-width"]),
   ("background",
    ["background-color", "background-image", "background-repeat", "background-position",
     "background-size", "background-attachment", "background-origin", "background-clip"]),
   ("font",
    ["font-style", "font-variant", "font-weight", "font-stretch", "font-size", "line-height",
     "font-family"]),
   ("list-style", ["list-style-type", "list-style-position", "list-style-image"]),
   ("overflow", ["overflow-x", "overflow-y"]),
   ("flex", ["flex-grow", "flex-shrink", "flex-basis"]),
   ("flex-flow", ["flex-direction", "flex-wrap"]),
   ("gap", ["row-gap", "column-gap"]),
   ("place-items", ["align-items", "justify-items"]),
   ("place-content", ["align-content", "justify-content"]),
   ("place-self", ["align-self", "justify-self"]),
   ("grid-area", ["grid-row-start", "grid-column-start", "grid-row-end", "grid-column-end"]),
   ("grid-row", ["grid-row-start", "grid-row-end"]),
   ("grid-column", ["grid-column-start", "grid-column-end"]),
   ("grid-template", ["grid-template-rows", "grid-template-columns", "grid-template-areas"]),
   ("columns", ["column-width", "column-count"]),
   ("text-decoration",
    ["text-decoration-line", "text-decoration-color", "text-decoration-style",
     "text-decoration-thickness"]),
   ("transition",
    ["transition-property", "transition-duration", "transition-timing-function",
     "transition-delay"]),
   ("animation",
    ["animation-name", "animation-duration", "animation-timing-function", "animation-delay",
     "animation-iteration-count", "animation-direction", "animation-fill-mode",
     "animation-play-state"])]

/-- The elements that may use a property, if not all of them may. -/
def allowedElements? (property : String) : Option (List String) :=
  restrictions.lookup (Text.lower property)

/-- An element may use every unrestricted property, and a restricted one when it is listed. -/
def usableOn (element property : String) : Bool :=
  match allowedElements? property with
  | none => true
  | some elements => elements.any (Text.sameName · element)

/-- The longhands a property sets when it is declared, in the order of the table. -/
def longhands (property : String) : List String :=
  (shorthands.lookup (Text.lower property)).getD []

/-- Declaring the first property sets the second one anew. -/
def resets (shorthand longhand : String) : Bool :=
  (longhands shorthand).any (Text.sameName · longhand)

/-- Both tables are asked by the lower-case form of the property, so spelling does not matter. -/
theorem longhands_eq_of_sameName {left right : String} (h : Text.sameName left right = true) :
    longhands left = longhands right := by
  simp only [longhands, Text.sameName_iff.1 h]

end StyleForest.Property
