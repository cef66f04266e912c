import StyleForest.Breakpoint
import StyleForest.Declaration.Error
import StyleForest.Location

/-!
# Errors of a style forest

Every reason for refusing a style forest. An error is a fault together with the location of
the node at fault; a fault that collides with an earlier declaration knows where that one
was made. Paths are kept as they are shown.
-/

namespace StyleForest

/-- What is wrong with a node. -/
inductive Fault where
  /-- The attribute is none of the allowed ones. -/
  | invalidAttribute (name : String) (allowed : List String)
  /-- The attribute has a value it cannot have. -/
  | invalidAttributeValue (name reason : String)
  /-- The node declares a breakpoint below a node that declares one. -/
  | nestedMediaQuery (path scopePath : String) (scope : Breakpoint)
    (scopeLocation : Option Location)
  /-- A subclass of a class that has not been declared. -/
  | unknownBaseClass (base : String)
  /-- A subclass below the top of a tree, or of a subclass. -/
  | nestedSubclass (className parent : String)
  /-- A block declares a property twice. -/
  | duplicateProperty (path property : String)
  /-- A piece of a block is no declaration. -/
  | malformedDeclaration (path declaration : String)
  /-- The element cannot use the property. -/
  | elementPropertyMismatch (path element property : String) (allowed : List String)
  /-- The property is declared already for an overlapping range. -/
  | overrideFound (path property : String) (existing : Option Location)
  /-- A shorthand resets a longhand that is declared for an overlapping range. -/
  | partialOverrideFound (path property shorthand : String) (existing : Option Location)
  deriving DecidableEq, Repr

/-- A fault and the location of the node at fault. -/
structure StyleError where
  fault : Fault
  location : Option Location
  deriving DecidableEq, Repr

namespace Fault

/-- The kind of a fault as one word. -/
def name : Fault → String
  | .invalidAttribute .. => "InvalidAttribute"
  | .invalidAttributeValue .. => "InvalidAttributeValue"
  | .nestedMediaQuery .. => "NestedMediaQuery"
  | .unknownBaseClass .. => "UnknownBaseClass"
  | .nestedSubclass .. => "NestedSubclass"
  | .duplicateProperty .. => "DuplicateProperty"
  | .malformedDeclaration .. => "MalformedDeclaration"
  | .elementPropertyMismatch .. => "ElementPropertyMismatch"
  | .overrideFound .. => "ExactOverrideFound"
  | .partialOverrideFound .. => "PartialOverrideFound"

/-- The kind of a fault as it heads a message. -/
def title : Fault → String
  | .invalidAttribute .. => "Invalid Attribute"
  | .invalidAttributeValue .. => "Invalid Attribute Value"
  | .nestedMediaQuery .. => "Nested Media Query"
  | .unknownBaseClass .. => "Unknown Base Class"
  | .nestedSubclass .. => "Nested Subclass"
  | .duplicateProperty .. => "Duplicate Property"
  | .malformedDeclaration .. => "Malformed Declaration"
  | .elementPropertyMismatch .. => "Element Property Mismatch"
  | .overrideFound .. => "Override Found"
  | .partialOverrideFound .. => "Partial Override Found"

/-- What a fault says below its title. -/
def explanation : Fault → String
  | .invalidAttribute name allowed =>
    let expected := ", ".intercalate allowed
    s!"`{name}` is not a valid attribute (expected one of: {expected})"
  | .invalidAttributeValue name reason => s!"`{name}` {reason}"
  | .nestedMediaQuery path scopePath scope _ =>
    s!"Nested media query found in `{scopePath}` (scope {scope.render} redeclared by `{path}`)"
  | .unknownBaseClass base => s!"The base class `{base}` does not exist"
  | .nestedSubclass className parent => s!"Nested subclass `{className}` found in `{parent}`"
  | .duplicateProperty path property =>
    s!"The CSS property `{property}` is defined twice by `{path}`"
  | .malformedDeclaration path declaration =>
    s!"`{declaration}` in `{path}` is not a `property: value` pair"
  | .elementPropertyMismatch path element property _ =>
    s!"The HTML element `{element}` ({path}) cannot use the property `{property}`"
  | .overrideFound path property _ =>
    s!"The property `{property}` has already been defined (`{path}`)"
  | .partialOverrideFound path property shorthand _ =>
    s!"The property `{property}` is overridden by `{shorthand}` (`{path}`)"

end Fault

namespace StyleError

/-- The message of an error, on one line. -/
def message (error : StyleError) : String :=
  s!"[{error.fault.title}] {error.fault.explanation}"

/-- The location of the earlier declaration the error collides with. -/
def related (error : StyleError) : Option Location :=
  match error.fault with
  | .nestedMediaQuery _ _ _ scopeLocation => scopeLocation
  | .overrideFound _ _ existing => existing
  | .partialOverrideFound _ _ _ existing => existing
  | _ => none

/-- Only the errors of a nested media query and of the two kinds of overrides know where the earlier
declaration stands. -/
theorem related_eq_some_iff {error : StyleError} {location : Location} :
    error.related = some location ↔
      (∃ path scopePath scope,
        error.fault = .nestedMediaQuery path scopePath scope (some location)) ∨
      (∃ path property, error.fault = .overrideFound path property (some location)) ∨
      ∃ path property shorthand,
        error.fault = .partialOverrideFound path property shorthand (some location) := by
  unfold related
  cases error.fault <;> simp

/-- The error of a node whose block is refused. A collision inside one block has the node on
both sides. -/
def ofBlockError (error : BlockError) (path : String) (location : Option Location) : StyleError :=
  let fault := match error with
    | .duplicate property => Fault.duplicateProperty path property
    | .overridden property shorthand =>
      Fault.partialOverrideFound path property shorthand location
    | .malformed text _ => Fault.malformedDeclaration path text
    | .unterminated .. => Fault.malformedDeclaration path error.message
  ⟨fault, location⟩

end StyleError

end StyleForest
