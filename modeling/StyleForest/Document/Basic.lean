import StyleForest.Json.Value

/-!
# Style documents

The shape of a document that holds style trees: a node has an element, attributes that are not
checked yet, and children that are declaration texts or nodes. A node is written as an object, or
as an array of its element, attributes and children of which only the element is required. A
document is an array of nodes, or else one node.
-/

namespace StyleForest

open Json (Value)

/-- A node as a document writes it. -/
inductive NodeDocument where
  | mk (element : String) (attributes : List (String × Value))
    (children : List (String ⊕ NodeDocument))
  deriving Repr

/-- The fields of a node that have been found. -/
structure NodeFields where
  element : Option String := none
  attributes : Option (List (String × Value)) := none
  children : Option (List (String ⊕ NodeDocument)) := none

namespace NodeFields

/-- Adds the element, unless it has been found already. -/
def withElement? (fields : NodeFields) (element : String) : Option NodeFields :=
  if fields.element.isSome then none else some { fields with element := some element }

/-- Adds the attributes, unless they have been found already. -/
def withAttributes? (fields : NodeFields) (attributes : List (String × Value)) :
    Option NodeFields :=
  if fields.attributes.isSome then none else some { fields with attributes := some attributes }

/-- Adds the children, unless they have been found already. -/
def withChildren? (fields : NodeFields) (children : List (String ⊕ NodeDocument)) :
    Option NodeFields :=
  if fields.children.isSome then none else some { fields with children := some children }

/-- The node with these fields; the element is required. -/
def toNode? (fields : NodeFields) : Option NodeDocument :=
  fields.element.map fun element =>
    .mk element (fields.attributes.getD []) (fields.children.getD [])

end NodeFields

mutual

/-- The node that a value is, if it has the shape of one. -/
def NodeDocument.ofValue? : Value → Option NodeDocument
  | .object fields => (NodeDocument.fieldsOf? fields).bind NodeFields.toNode?
  | .array [.string element] => some (.mk element [] [])
  | .array [.string element, .object attributes] => some (.mk element attributes [])
  | .array [.string element, .object attributes, .array children] =>
    (NodeDocument.childrenOf? children).map (.mk element attributes)
  | _ => none

/-- The children that values are: texts and nodes. -/
def NodeDocument.childrenOf? : List Value → Option (List (String ⊕ NodeDocument))
  | [] => some []
  | .string text :: rest => (NodeDocument.childrenOf? rest).map (.inl text :: ·)
  | value :: rest => do
    let node ← NodeDocument.ofValue? value
    let children ← NodeDocument.childrenOf? rest
    return .inr node :: children

/-- The fields of a node among those of an object. A field may not repeat and must have the
right shape; fields of other names are passed over. -/
def NodeDocument.fieldsOf? : List (String × Value) → Option NodeFields
  | [] => some {}
  | (name, value) :: rest => do
    let fields ← NodeDocument.fieldsOf? rest
    match name, value with
    | "element", .string element => fields.withElement? element
    | "attrs", .object attributes => fields.withAttributes? attributes
    | "children", .array children =>
      (NodeDocument.childrenOf? children).bind fields.withChildren?
    | "element", _ | "attrs", _ | "children", _ => none
    | _, _ => some fields

end

/-- The nodes that values are. -/
def NodeDocument.forestOf? (values : List Value) : Option (List NodeDocument) :=
  values.mapM NodeDocument.ofValue?

/-- The forest of a document: an array is tried as a forest first and as one node then. -/
def NodeDocument.documentOf? (value : Value) : Option (List NodeDocument) :=
  let single := (NodeDocument.ofValue? value).map fun node => [node]
  match value with
  | .array values => (NodeDocument.forestOf? values).or single
  | _ => single

end StyleForest
