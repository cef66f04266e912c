import StyleForest.Number.Decimal
import StyleForest.StyleError
import StyleForest.Text.Blank

/-!
# Attributes of a node

The attributes say under which class, pseudo suffix and range of widths a node files its
declarations, and where it was written. They are built from pairs of a name and an untyped
value; the source is looked up first, so that it locates the error of any other pair.
-/

namespace StyleForest

/-- The attributes of a node. -/
structure Attributes where
  className : Option String := none
  minWidth : Option UInt32 := none
  maxWidth : Option UInt32 := none
  /-- The pseudo suffix with its colon. -/
  pseudo : Option String := none
  /-- Where the node was written. -/
  source : Option Location := none
  deriving DecidableEq, Repr

/-- The value of an attribute before it is checked. -/
inductive AttributeValue where
  | text (text : String)
  | number (value : Binary64)
  | source (location : Location)
  deriving DecidableEq, Repr

/-- The names of the attributes a node can have. -/
def allowedAttributes : List String :=
  ["className", "minWidth", "maxWidth", "pseudoSelector", "__source"]

/-- Numbers in messages are written without an exponent. -/
def plainNumber : DecimalFormat :=
  { positional := none, keepsPoint := false, tiesUp := true }

/-- What a value is called in messages. -/
def AttributeValue.typeName : AttributeValue → String
  | .text _ => "a string"
  | .number _ => "a number"
  | .source _ => "a source location"

namespace Attributes

/-- The suffix with a colon in front, unless it has one. -/
def withColon (suffix : String) : String :=
  if suffix.toList.head? = some ':' then suffix else ":" ++ suffix

/-- A suffix with its colon begins with one. -/
theorem head?_withColon (suffix : String) : (withColon suffix).toList.head? = some ':' := by
  unfold withColon
  split
  · assumption
  · simp

/-- Only a suffix that begins with a colon is left as it is. -/
theorem withColon_eq_self_iff {suffix : String} :
    withColon suffix = suffix ↔ suffix.toList.head? = some ':' :=
  ⟨fun h => h ▸ head?_withColon suffix, fun h => if_pos h⟩

/-- At most one colon is put in front of a suffix, and nothing else changes. -/
theorem withColon_eq_or (suffix : String) :
    withColon suffix = suffix ∨ withColon suffix = ":" ++ suffix := by
  by_cases h : suffix.toList.head? = some ':'
  · exact Or.inl (if_pos h)
  · exact Or.inr (if_neg h)

/-- A suffix that has its colon gets no other one. -/
theorem withColon_withColon (suffix : String) : withColon (withColon suffix) = withColon suffix :=
  withColon_eq_self_iff.2 (head?_withColon suffix)

/-- The error of an attribute that cannot have its value. -/
def invalidValue (attributes : Attributes) (name reason : String) : StyleError :=
  ⟨.invalidAttributeValue name reason, attributes.source⟩

/-- A pseudo suffix names something when more than colons and blanks is left of it. -/
def namesPseudo (suffix : String) : Bool :=
  !(suffix.toList.dropWhile (· = ':')).all Text.isBlank

/-- Checks that the pseudo suffix names something and then that the range is not inverted. -/
def validate (attributes : Attributes) : Except StyleError Unit :=
  let emptyPseudo := attributes.pseudo.filter fun suffix => !namesPseudo suffix
  match emptyPseudo, attributes.minWidth, attributes.maxWidth with
  | some suffix, _, _ => .error (attributes.invalidValue "pseudoSelector" s!"`{suffix}` is empty")
  | none, some min, some max =>
    if max < min then
      .error (attributes.invalidValue "minWidth" s!"({min}) must not exceed maxWidth ({max})")
    else
      .ok ()
  | _, _, _ => .ok ()

/-- The node declares a range of its own. -/
def declaresBreakpoint (attributes : Attributes) : Bool :=
  attributes.minWidth.isSome || attributes.maxWidth.isSome

/-- The range the node declares, if it declares one. -/
def breakpoint? (attributes : Attributes) : Option Breakpoint :=
  if attributes.declaresBreakpoint then
    some (Breakpoint.ofBounds attributes.minWidth attributes.maxWidth)
  else
    none

/-- Without bounds there is no range. -/
theorem breakpoint?_eq_none_iff {attributes : Attributes} :
    attributes.breakpoint? = none ↔ ¬attributes.declaresBreakpoint = true := by
  simp [breakpoint?]

/-- A width is a whole number of pixels of 32 bits. -/
def pixels? (value : Binary64) : Option UInt32 :=
  match value.toNat? with
  | some n => if n < UInt32.size then some (UInt32.ofNat n) else none
  | none => none

/-- Takes a width from a number. -/
def readPixels (attributes : Attributes) (name : String) (value : Binary64) :
    Except StyleError UInt32 :=
  match pixels? value with
  | some width => .ok width
  | none => .error <| attributes.invalidValue name
      s!"must be a whole number of pixels, got {value.render plainNumber}"

/-- Sets one attribute. -/
def set (attributes : Attributes) (name : String) (value : AttributeValue) :
    Except StyleError Attributes :=
  match name, value with
  | "className", .text text => .ok { attributes with className := text }
  | "pseudoSelector", .text text => .ok { attributes with pseudo := withColon text }
  | "minWidth", .number number => do
    return { attributes with minWidth := some (← attributes.readPixels name number) }
  | "maxWidth", .number number => do
    return { attributes with maxWidth := some (← attributes.readPixels name number) }
  | "__source", .source _ => .ok attributes
  | _, _ =>
    if allowedAttributes.contains name then
      .error (attributes.invalidValue name s!"cannot be {value.typeName}")
    else
      .error ⟨.invalidAttribute name allowedAttributes, attributes.source⟩

/-- The last source among the pairs. -/
def lastSource? (pairs : List (String × AttributeValue)) : Option Location :=
  pairs.foldl (fun found pair =>
    match pair with
    | ("__source", .source location) => some location
    | _ => found) none

/-- The attributes that pairs describe; of two pairs with one name the later one counts. -/
def ofPairs (pairs : List (String × AttributeValue)) : Except StyleError Attributes := do
  let start : Attributes := { source := lastSource? pairs }
  let attributes ← pairs.foldlM (fun attributes (name, value) => attributes.set name value) start
  attributes.validate
  return attributes

end Attributes

end StyleForest
