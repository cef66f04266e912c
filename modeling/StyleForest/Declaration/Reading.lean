import StyleForest.Declaration.Block
import StyleForest.Declaration.Lexeme

/-!
# Reading a declaration text

A cursor reads tokens one by one and knows its position. The tokens of a whole text are
cut at the semicolons into pieces; every piece that is not blank must be a declaration,
and the declarations are pushed onto a block in order. The first piece that fails decides
the error, so what comes after it is never looked at.
-/

namespace StyleForest

/-- A place in a text together with the text that is still to be read. -/
structure Cursor where
  rest : List Char
  position : Position
  deriving DecidableEq, Repr

/-- What a cursor reads next. -/
inductive Reading where
  | finished
  | token (token : Token)
  /-- A string or a group, opened at the position, is never closed. -/
  | unterminated (delimiter : Delimiter) (position : Position)
  deriving DecidableEq, Repr

namespace Cursor

/-- The cursor before the first character of a text. -/
def ofText (text : String) : Cursor :=
  ⟨text.toList, Position.start⟩

/-- Reads the next token. What is never closed takes the cursor to the end of the text. -/
def next (cursor : Cursor) : Reading × Cursor :=
  match Lexeme.scan cursor.rest with
  | .finished => (.finished, cursor)
  | .token token lexeme rest => (.token token, ⟨rest, cursor.position.after lexeme⟩)
  | .unclosed ⟨delimiter, opening⟩ =>
    let before := cursor.rest.take (cursor.rest.length - opening.length)
    (.unterminated delimiter (cursor.position.after before),
      ⟨[], cursor.position.after cursor.rest⟩)

/-- A call returns the token at the start of what is left, and the cursor behind its lexeme. -/
theorem next_of_token {cursor : Cursor} {token : Token} {lexeme rest : List Char}
    (h : Lexeme.scan cursor.rest = .token token lexeme rest) :
    cursor.next = (.token token, ⟨rest, cursor.position.after lexeme⟩) := by
  rw [next, h]

/-- A token that is read next is scanned from the rest of the text. -/
theorem scan_of_next {cursor after : Cursor} {token : Token}
    (h : cursor.next = (.token token, after)) :
    ∃ lexeme, Lexeme.scan cursor.rest = .token token lexeme after.rest := by
  unfold next at h
  split at h
  · cases h
  · next token lexeme rest hscan =>
    cases h
    exact ⟨lexeme, hscan⟩
  · cases h

/-- Reading a token moves the cursor forward. -/
theorem length_rest_next {cursor after : Cursor} {token : Token}
    (h : cursor.next = (.token token, after)) : after.rest.length < cursor.rest.length := by
  obtain ⟨_, hscan⟩ := scan_of_next h
  exact Lexeme.length_lt_of_scan hscan

end Cursor

/-- A token with the position before it. -/
structure PlacedToken where
  token : Token
  position : Position
  deriving DecidableEq, Repr

/-- The tokens of a text up to its end, or up to what is never closed. -/
structure TokenRun where
  tokens : List PlacedToken
  /-- Where reading came to an end. -/
  stop : Position
  failure : Option BlockError
  deriving DecidableEq, Repr

/-- All tokens from the cursor on. -/
def Cursor.tokens (cursor : Cursor) : TokenRun :=
  match h : cursor.next with
  | (.finished, after) => ⟨[], after.position, none⟩
  | (.unterminated delimiter position, after) =>
    ⟨[], after.position, some (.unterminated delimiter.name position)⟩
  | (.token token, after) =>
    have : after.rest.length < cursor.rest.length := length_rest_next h
    let run := after.tokens
    { run with tokens := ⟨token, cursor.position⟩ :: run.tokens }
termination_by cursor.rest.length

/-- The tokens between two semicolons, or the failure that ended the text among them. -/
abbrev Piece := Except BlockError (List PlacedToken)

/-- Cuts a run of tokens at its semicolons: the first piece and those after it. -/
def cutPieces (failure : Option BlockError) : List PlacedToken → Piece × List Piece
  | [] => (failure.elim (.ok []) .error, [])
  | placed :: rest =>
    let (piece, pieces) := cutPieces failure rest
    if placed.token = .semicolon then
      (.ok [], piece :: pieces)
    else
      (piece.map (placed :: ·), pieces)

/-- The pieces of a run of tokens, in order. -/
def TokenRun.pieces (run : TokenRun) : List Piece :=
  let (piece, pieces) := cutPieces run.failure run.tokens
  piece :: pieces

/-- The text of tokens in a row, without the blanks at its ends. -/
def trimmedText (tokens : List Token) : List Char :=
  Text.trim (tokens.flatMap Token.text)

/-- The declaration that tokens spell, if they do: a name without blanks, a colon, and a
value that is not blank. -/
def declaration? (tokens : List Token) : Option Declaration :=
  match tokens.dropWhile (· ≠ .colon) with
  | [] => none
  | _ :: after =>
    let property := trimmedText (tokens.takeWhile (· ≠ .colon))
    let value := trimmedText after
    if property.isEmpty || property.any Text.isBlank || value.isEmpty then
      none
    else
      some { property := Text.lower (String.ofList property), value := String.ofList value }

/-- Adds the declaration of one piece to a block; a blank piece adds nothing. -/
def Block.addPiece (block : Block) (placed : List PlacedToken) : Except BlockError Block :=
  match placed with
  | [] => .ok block
  | first :: _ =>
    let tokens := placed.map PlacedToken.token
    if tokens.all (· = .gap) then
      .ok block
    else
      match declaration? tokens with
      | some declaration => block.push declaration
      | none => .error (.malformed (String.ofList (trimmedText tokens)) first.position)

/-- Reads a declaration text. -/
def Block.parse (text : String) : Except BlockError Block :=
  (Cursor.ofText text).tokens.pieces.foldlM
    (fun block piece => piece.bind block.addPiece) Block.empty

/-- A piece adds nothing to a block or pushes one declaration. -/
theorem Block.addPiece_cases {block after : Block} {placed : List PlacedToken}
    (h : block.addPiece placed = .ok after) :
    after = block ∨ ∃ declaration, block.push declaration = .ok after := by
  unfold addPiece at h
  cases placed with
  | nil => exact Or.inl (Except.ok.inj h).symm
  | cons first rest =>
    dsimp only at h
    split at h
    · exact Or.inl (Except.ok.inj h).symm
    · split at h
      · next declaration _ => exact Or.inr ⟨declaration, h⟩
      · cases h

/-- What holds of the empty block and is kept by pushes holds of every block that is read. -/
theorem Block.parse_induction {P : Block → Prop} (hempty : P Block.empty)
    (hpush : ∀ {block pushed : Block} {declaration : Declaration},
      block.push declaration = .ok pushed → P block → P pushed)
    {text : String} {block : Block} (h : Block.parse text = .ok block) : P block := by
  have hfold (pieces : List Piece) : ∀ start : Block, P start →
      pieces.foldlM (fun block piece => piece.bind block.addPiece) start = .ok block → P block := by
    induction pieces with
    | nil =>
      intro start hstart hend
      cases hend
      exact hstart
    | cons piece rest ih =>
      intro start hstart hend
      rw [List.foldlM_cons] at hend
      cases hadd : piece.bind start.addPiece with
      | error error =>
        rw [hadd] at hend
        cases hend
      | ok after =>
        rw [hadd] at hend
        refine ih after ?_ hend
        cases piece with
        | error error => cases hadd
        | ok placed =>
          rcases addPiece_cases hadd with rfl | ⟨declaration, hpushed⟩
          · exact hstart
          · exact hpush hpushed hstart
  exact hfold _ _ hempty h

end StyleForest
