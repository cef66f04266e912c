/-!
# Declarations

A declaration sets one property to one value. When a subclass has replaced the value, the
declaration still knows the value it started from and shows it in a comment.
-/

namespace StyleForest

/-- A property set to a value. -/
structure Declaration where
  property : String
  value : String
  /-- The value that was replaced first, if any was. -/
  replaced : Option String := none
  deriving DecidableEq, Repr

/-- The declaration with a new value. The value it had first is kept beside the new one. -/
def Declaration.replaceValue (declaration : Declaration) (value : String) : Declaration :=
  { declaration with value, replaced := some (declaration.replaced.getD declaration.value) }

/-- A declaration as it stands in a stylesheet. -/
def Declaration.render (declaration : Declaration) : String :=
  match declaration.replaced with
  | none => s!"{declaration.property}: {declaration.value};"
  | some first =>
    s!"{declaration.property}: {declaration.value} /* (original value: {first}) */;"

end StyleForest
