import StyleForest.Declaration.Position

/-!
# Errors in a declaration block

Everything that can be wrong with the text of one block, and how it is worded.
-/

namespace StyleForest

/-- The reason why a text or a declaration is refused as part of a block. -/
inductive BlockError where
  /-- The property is declared already. -/
  | duplicate (property : String)
  /-- A shorthand would silently set a property that is declared already. -/
  | overridden (property shorthand : String)
  /-- A piece of the text is not of the form `property: value`. -/
  | malformed (text : String) (position : Position)
  /-- What is opened at the position, for instance a string, is never closed. -/
  | unterminated (opened : String) (position : Position)
  deriving DecidableEq, Repr

/-- The wording of an error. -/
def BlockError.message : BlockError → String
  | .duplicate property => s!"The CSS property `{property}` is defined twice"
  | .overridden property shorthand =>
    s!"The property `{property}` is overridden by `{shorthand}`"
  | .malformed text position => s!"Malformed declaration `{text}` at {position.render}"
  | .unterminated opened position => s!"Unterminated {opened} at {position.render}"

end StyleForest
