import StyleForest.Json.Token

/-!
# Reading a JSON text

A reader works through the tokens with a stack of the arrays and objects that are open and
what it expects next. A value that is complete is handed to the container around it, and is the
result if there is none. Containers nest at most 127 deep.
-/

namespace StyleForest.Json

/-- An open container that waits for a value; what it holds so far, the last first. -/
inductive Frame where
  | item (items : List Value)
  | member (fields : List (String × Value)) (key : String)
  deriving Repr

/-- What is expected next. -/
inductive Expected where
  /-- A value; the array around it may also end if it was opened just now. -/
  | value (opened : Bool)
  /-- A key; the object may also end if it was opened just now. -/
  | key (fields : List (String × Value)) (opened : Bool)
  /-- The colon after a key. -/
  | colon (fields : List (String × Value)) (key : String)
  /-- A comma or the end of an array. -/
  | afterItem (items : List Value)
  /-- A comma or the end of an object. -/
  | afterField (fields : List (String × Value))
  deriving Repr

/-- A reader between two tokens, or the value it has completed. -/
inductive Reader where
  | reading (expected : Expected) (stack : List Frame)
  | finished (value : Value)
  deriving Repr

/-- The number of containers that can be open at a time. -/
def depthLimit : Nat := 127

namespace Reader

/-- Hands a complete value to the container around it. -/
def deliver (value : Value) : List Frame → Reader
  | [] => finished value
  | .item items :: stack => reading (.afterItem (value :: items)) stack
  | .member fields key :: stack => reading (.afterField ((key, value) :: fields)) stack

/-- Takes one token, if it is expected. -/
def step? (expected : Expected) (stack : List Frame) (token : Token) : Option Reader :=
  match expected, token with
  | .value _, .scalar value => some (deliver value stack)
  | .value _, .openArray =>
    if stack.length < depthLimit then some (reading (.value true) (.item [] :: stack)) else none
  | .value _, .openObject =>
    if stack.length < depthLimit then some (reading (.key [] true) stack) else none
  | .value true, .closeArray => some (deliver (.array []) (stack.drop 1))
  | .key fields _, .scalar (.string key) => some (reading (.colon fields key) stack)
  | .key _ true, .closeObject => some (deliver (.object []) stack)
  | .colon fields key, .colon => some (reading (.value false) (.member fields key :: stack))
  | .afterItem items, .comma => some (reading (.value false) (.item items :: stack))
  | .afterItem items, .closeArray => some (deliver (.array items.reverse) stack)
  | .afterField fields, .comma => some (reading (.key fields false) stack)
  | .afterField fields, .closeObject => some (deliver (.object fields.reverse) stack)
  | _, _ => none

/-- Takes tokens until a value is complete; gives it with the text that is left. -/
def run (reader : Reader) (text : List Char) : Option (Value × List Char) :=
  match reader with
  | finished value => some (value, text)
  | reading expected stack =>
    match h : nextToken? text with
    | none => none
    | some (token, rest) =>
      have : rest.length < text.length := length_nextToken?_lt h
      match step? expected stack token with
      | none => none
      | some reader => reader.run rest
termination_by text.length

end Reader

/-- The value at the start of a text, and the text that is left. -/
def read? (text : List Char) : Option (Value × List Char) :=
  (Reader.reading (.value false) []).run text

end StyleForest.Json
