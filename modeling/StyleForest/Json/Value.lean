import StyleForest.Number.Decimal
import StyleForest.Text.Quoted

/-!
# JSON values

A value keeps the items of an array and the fields of an object in the order of the text;
fields may repeat. Integers of 64 bits are kept apart from other numbers.
-/

namespace StyleForest.Json

/-- A number of a document. -/
inductive Number where
  /-- A natural number of 64 bits. -/
  | natural (n : Nat)
  /-- The opposite of a positive number, an integer of 64 bits. -/
  | negative (n : Nat)
  /-- Every other number. -/
  | float (value : Binary64)
  deriving DecidableEq, Repr

/-- A value of a document. -/
inductive Value where
  | null
  | boolean (value : Bool)
  | number (number : Number)
  | string (text : String)
  | array (items : List Value)
  | object (fields : List (String × Value))
  deriving Repr

/-- The binary number nearest to a number. -/
def Number.toBinary64 : Number → Binary64
  | .natural n => Binary64.ofNat n
  | .negative n => (Binary64.ofNat n).neg
  | .float value => value

/-- Numbers that are no integers keep a point, and an exponent far from one. -/
def Number.floatFormat : DecimalFormat :=
  { positional := some (-5, 15), keepsPoint := true, tiesUp := false }

namespace Value

/-- What the type of a value is called, with its article. -/
def typeName : Value → String
  | null => "null"
  | boolean _ => "a boolean"
  | number _ => "a number"
  | string _ => "a string"
  | array _ => "an array"
  | object _ => "an object"

/-- A value as a message about an unexpected one shows it. -/
def describe : Value → String
  | null => "null"
  | boolean value => s!"boolean `{value}`"
  | number (.natural n) => s!"integer `{n}`"
  | number (.negative n) => s!"integer `-{n}`"
  | number (.float value) => s!"floating point `{value.render Number.floatFormat}`"
  | string text => s!"string {Text.quoted text}"
  | array _ => "sequence"
  | object _ => "map"

end Value

end StyleForest.Json
