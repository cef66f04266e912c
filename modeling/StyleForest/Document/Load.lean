import Std.Data.TreeMap
import StyleForest.Document.Basic
import StyleForest.Document.Error
import StyleForest.Json.Reader
import StyleForest.Tree.Node

/-!
# Loading a document

The attributes of a node are looked at in the order of their names, and of a repeated name the last
one counts. The source comes first, then any name that is not allowed, then values no attribute
can have, and the checks of the attributes themselves last. A node is built before the nodes
below it, so the failure of a document is that of its first failing node.
-/

namespace StyleForest

open Json (Value)

/-- Fields by name, in the order of the names; of a repeated name the last field counts. -/
abbrev FieldMap := Std.TreeMap String Value

/-- The field map of the fields of an object. -/
def FieldMap.ofFields (fields : List (String × Value)) : FieldMap :=
  Std.TreeMap.ofList fields

namespace Location

/-- A line or a column of a source; it is zero if the field is missing. -/
def wordOf : Option Value → Except ShapeError UInt32
  | none => .ok 0
  | some (.number (.natural n)) =>
    if n < UInt32.size then .ok (UInt32.ofNat n)
    else .error (.outOfRange (.number (.natural n)) "u32")
  | some (.number (.negative n)) => .error (.outOfRange (.number (.negative n)) "u32")
  | some value => .error (.wrongType value "u32")

/-- The file of a source; a null field counts as missing. -/
def fileOf : Option Value → Except ShapeError (Option String)
  | none | some .null => .ok none
  | some (.string file) => .ok (some file)
  | some value => .error (.wrongType value "a string")

/-- The location that the fields of a source give; the file is the document's own unless it is
named. Other fields are passed over. -/
def ofFields (fields : FieldMap) (path : String) : Except ShapeError Location := do
  let column ← wordOf fields["columnNumber"]?
  let file ← fileOf fields["fileName"]?
  let line ← wordOf fields["lineNumber"]?
  return { file := file.getD path, line, column }

end Location

namespace Attributes

/-- The source of a node. Without one, the node is somewhere in the document. -/
def sourceOf (fields : FieldMap) (path : String) : Except LoadError Location :=
  match fields["__source"]? with
  | none | some .null => .ok ⟨path, 0, 0⟩
  | some (.object source) =>
    (Location.ofFields (FieldMap.ofFields source) path).mapError (LoadError.shape path)
  | some value => .error (.attributeType path "__source" value.typeName)

/-- The pair of an attribute, unless its value is null. -/
def pairOf? (path name : String) : Value → Except LoadError (Option (String × AttributeValue))
  | .null => .ok none
  | .string text => .ok (some (name, .text text))
  | .number number => .ok (some (name, .number number.toBinary64))
  | value => .error (.attributeType path name value.typeName)

/-- The attributes that the fields of an object give. -/
def ofFields (fields : List (String × Value)) (path : String) : Except LoadError Attributes := do
  let fields := FieldMap.ofFields fields
  let source ← sourceOf fields path
  let others := fields.toList.filter fun (name, _) => name ≠ "__source"
  match others.find? fun (name, _) => !allowedAttributes.contains name with
  | some (name, _) => .error (.style ⟨.invalidAttribute name allowedAttributes, some source⟩)
  | none =>
    let pairs ← others.mapM fun (name, value) => pairOf? path name value
    (ofPairs (("__source", .source source) :: pairs.filterMap id)).mapError LoadError.style

end Attributes

mutual

/-- The node that a document writes. -/
def NodeDocument.build (path : String) : NodeDocument → Except LoadError Node
  | .mk element attributes children => do
    let attributes ← Attributes.ofFields attributes path
    let items ← NodeDocument.buildAll path children
    return Node.ofItems element attributes items

/-- The items that the children of a node are. -/
def NodeDocument.buildAll (path : String) :
    List (String ⊕ NodeDocument) → Except LoadError (List NodeItem)
  | [] => .ok []
  | .inl text :: rest => do
    let items ← NodeDocument.buildAll path rest
    return .text text :: items
  | .inr document :: rest => do
    let node ← document.build path
    let items ← NodeDocument.buildAll path rest
    return .node node :: items

end

/-- The nodes that a JSON text writes. A first value of the wrong shape is the fault even if more
text follows it; after a value of the right shape nothing but blanks may follow. -/
def readDocument (text path : String) : Except LoadError (List NodeDocument) :=
  match Json.read? text.toList with
  | none => .error (.notJson path)
  | some (value, rest) =>
    match NodeDocument.documentOf? value with
    | none => .error (.shape path .document)
    | some forest => if (Json.skipSpace rest).isEmpty then .ok forest else .error (.notJson path)

/-- The forest of a document; its path locates the nodes that have no source. -/
def loadForest (text path : String) : Except LoadError (List Node) := do
  let documents ← readDocument text path
  documents.mapM (NodeDocument.build path)

end StyleForest
