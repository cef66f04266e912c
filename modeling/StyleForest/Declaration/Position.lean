/-!
# Positions in a declaration text

A position counts lines and columns from one and bytes from zero. It is determined by
the text before it: reading that text character by character moves the position, and
reading two texts one after the other is reading them joined.
-/

namespace StyleForest

/-- A place between two characters of a text. -/
structure Position where
  /-- One more than the number of line feeds before the place. -/
  line : Nat
  /-- One more than the number of characters since the last line feed. -/
  column : Nat
  /-- The number of bytes of UTF-8 before the place. -/
  offset : Nat
  deriving DecidableEq, Repr

namespace Position

/-- The place before the first character. -/
def start : Position := ⟨1, 1, 0⟩

/-- The place after one more character. -/
def advance (place : Position) (c : Char) : Position :=
  if c = '\n' then
    ⟨place.line + 1, 1, place.offset + c.utf8Size⟩
  else
    ⟨place.line, place.column + 1, place.offset + c.utf8Size⟩

/-- The place after a text that begins at `place`. -/
def after (place : Position) (text : List Char) : Position :=
  text.foldl advance place

@[simp] theorem after_nil (place : Position) : place.after [] = place := rfl

@[simp] theorem after_cons (place : Position) (c : Char) (rest : List Char) :
    place.after (c :: rest) = (place.advance c).after rest := rfl

/-- Reading on from where the first text ends gives the place after both. -/
theorem after_append (place : Position) (first second : List Char) :
    place.after (first ++ second) = (place.after first).after second :=
  List.foldl_append

/-- The offset grows by the length in bytes of the text that was read. -/
theorem offset_after (place : Position) (text : List Char) :
    (place.after text).offset = place.offset + (String.ofList text).utf8ByteSize := by
  induction text generalizing place with
  | nil => simp
  | cons c rest ih =>
    rw [after_cons, ih, String.ofList_cons, String.utf8ByteSize_append,
      String.utf8ByteSize_singleton, ← Nat.add_assoc]
    unfold advance
    split
    · rfl
    · rfl

/-- A position is shown as its line and its column. -/
def render (place : Position) : String :=
  s!"{place.line}:{place.column}"

end Position

end StyleForest
