import StyleForest.Json.Value
import StyleForest.StyleError

/-!
# Errors of loading a document

A document fails to load because its text is no JSON, because it has the wrong shape, because an
attribute has a value of a type no attribute can have, or because a node is refused.
-/

namespace StyleForest

/-- A value that does not have the shape it should have. -/
inductive ShapeError where
  /-- The document is neither a node nor an array of nodes. -/
  | document
  /-- A value of another type was expected. -/
  | wrongType (found : Json.Value) (expected : String)
  /-- The value is of the right type but out of range. -/
  | outOfRange (found : Json.Value) (expected : String)

/-- The wording of a shape error. -/
def ShapeError.message : ShapeError → String
  | .document => "data did not match any variant of untagged enum Document"
  | .wrongType found expected => s!"invalid type: {found.describe}, expected {expected}"
  | .outOfRange found expected => s!"invalid value: {found.describe}, expected {expected}"

/-- The reason why a document is not loaded. -/
inductive LoadError where
  /-- The text is not a JSON document. -/
  | notJson (path : String)
  | shape (path : String) (error : ShapeError)
  /-- No attribute can have a value of this type. -/
  | attributeType (path name found : String)
  | style (error : StyleError)

/-- The message of an error. -/
def LoadError.message : LoadError → String
  | .notJson path => s!"Invalid style document {path}: the text is not a JSON document"
  | .shape path error => s!"Invalid style document {path}: {error.message}"
  | .attributeType path name found => s!"Attribute `{name}` in {path} cannot be {found}"
  | .style error => error.message

end StyleForest
