import Mathlib.Data.List.TakeWhile
import StyleForest.Declaration.Reading
import StyleForest.Proofs.Spelling
import StyleForest.Proofs.Steps

/-!
# The grammar of a declaration text

The semicolons cut the tokens of a text into pieces, and the pieces that are not blank are its
statements. A text is read as a block exactly when everything opened in it is closed, its
statements spell the declarations of the block in order, and none of these is refused by those
before it (`Block.parse_eq_ok_iff`). Positions and the order in which errors are found play no
part in that.
-/

namespace StyleForest

/-- The later declaration is not refused by the earlier one: it has another name and does not
reset it. -/
def Declaration.MayPrecede (earlier later : Declaration) : Prop :=
  Text.sameName earlier.property later.property = false ∧
    Property.resets later.property earlier.property = false

/-- The tokens are blanks only. -/
def isBlankPiece (tokens : List Token) : Bool :=
  tokens.all (· = .gap)

/-- A piece is blank when its tokens are gaps. -/
theorem isBlankPiece_iff {tokens : List Token} :
    isBlankPiece tokens = true ↔ ∀ token ∈ tokens, token = .gap := by
  simp only [isBlankPiece, List.all_eq_true, decide_eq_true_eq]

/-- The pieces between the semicolons that are not blank. -/
def statements (tokens : List Token) : List (List Token) :=
  (tokens.splitOnP (· = .semicolon)).filter fun piece => !isBlankPiece piece

/-- A semicolon separates the statements before it from those after it. -/
theorem statements_append_semicolon (tokens more : List Token) :
    statements (tokens ++ .semicolon :: more) = statements tokens ++ statements more := by
  unfold statements
  rw [List.splitOnP_append_cons tokens more (by simp), List.filter_append]

/-- A blank piece makes no statement. -/
theorem statements_of_blank {tokens : List Token} (h : isBlankPiece tokens = true) :
    statements tokens = [] := by
  have hplain (token : Token) (hmem : token ∈ tokens) : decide (token = .semicolon) = false := by
    simp [isBlankPiece_iff.1 h token hmem]
  rw [statements, List.splitOnP_eq_singleton hplain]
  simp [h]

/-- A piece that is not blank is one statement. -/
theorem statements_of_piece {tokens : List Token} (hplain : Token.semicolon ∉ tokens)
    (h : isBlankPiece tokens = false) : statements tokens = [tokens] := by
  have hsingle : tokens.splitOnP (fun token => decide (token = .semicolon)) = [tokens] :=
    List.splitOnP_eq_singleton fun token hmem => by
      rw [decide_eq_false_iff_not]
      rintro rfl
      exact hplain hmem
  rw [statements, hsingle]
  simp [h]

/-- A statement stands in the tokens and holds no semicolon. -/
theorem infix_of_mem_statements {tokens piece : List Token} (h : piece ∈ statements tokens) :
    piece <:+: tokens ∧ Token.semicolon ∉ piece := by
  induction hlength : tokens.length using Nat.strong_induction_on generalizing tokens with
  | _ length ih =>
    by_cases hmem : Token.semicolon ∈ tokens
    · obtain ⟨before, after, rfl, hbefore⟩ := List.eq_append_cons_of_mem hmem
      have hlengths : before.length + (after.length + 1) = length := by simpa using hlength
      rw [statements_append_semicolon, List.mem_append] at h
      rcases h with h | h
      · obtain ⟨hpart, hplain⟩ := ih before.length (by omega) h rfl
        exact ⟨hpart.trans (List.prefix_append before _).isInfix, hplain⟩
      · obtain ⟨hpart, hplain⟩ := ih after.length (by omega) h rfl
        have hafter : after <:+ before ++ Token.semicolon :: after :=
          (List.suffix_cons _ after).trans (List.suffix_append before _)
        exact ⟨hpart.trans hafter.isInfix, hplain⟩
    · cases hblank : isBlankPiece tokens with
      | true =>
        rw [statements_of_blank hblank] at h
        cases h
      | false =>
        rw [statements_of_piece hmem hblank, List.mem_singleton] at h
        rw [h]
        exact ⟨List.infix_rfl, hmem⟩

/-- Among tokens without a semicolon only gaps are gaps or semicolons. -/
theorem isBlankPiece_iff_of_plain {tokens : List Token} (h : Token.semicolon ∉ tokens) :
    isBlankPiece tokens = true ↔ ∀ token ∈ tokens, token = .gap ∨ token = .semicolon := by
  rw [isBlankPiece_iff]
  refine forall₂_congr fun token hmem => (or_iff_left ?_).symm
  rintro rfl
  exact h hmem

/-- Without a statement there are only gaps and semicolons. -/
theorem statements_eq_nil_iff {tokens : List Token} :
    statements tokens = [] ↔ ∀ token ∈ tokens, token = .gap ∨ token = .semicolon := by
  induction hlength : tokens.length using Nat.strong_induction_on generalizing tokens with
  | _ length ih =>
    by_cases hmem : Token.semicolon ∈ tokens
    · obtain ⟨before, after, rfl, _⟩ := List.eq_append_cons_of_mem hmem
      have hlengths : before.length + (after.length + 1) = length := by simpa using hlength
      rw [statements_append_semicolon, List.append_eq_nil_iff, ih before.length (by omega) rfl,
        ih after.length (by omega) rfl, List.forall_mem_append, List.forall_mem_cons]
      simp
    · rw [← isBlankPiece_iff_of_plain hmem]
      cases hblank : isBlankPiece tokens with
      | true => simp [statements_of_blank hblank]
      | false => simp [statements_of_piece hmem hblank]

/-- Around their first colon the tokens spell a property and a value, without the blanks at the ends
of either. The property is not empty, holds no blank and is kept in lower case; the value is not
empty, and a gap inside it is one space. -/
def Declares (tokens : List Token) (declaration : Declaration) : Prop :=
  ∃ names values, tokens = names ++ .colon :: values ∧ Token.colon ∉ names ∧
    trimmedText names ≠ [] ∧ (∀ c ∈ trimmedText names, Text.isBlank c = false) ∧
    trimmedText values ≠ [] ∧
    declaration =
      { property := Text.lower (String.ofList (trimmedText names))
        value := String.ofList (trimmedText values) }

/-- The tokens are cut at their first colon. -/
theorem takeWhile_dropWhile_colon {names : List Token} (values : List Token)
    (h : Token.colon ∉ names) :
    (names ++ .colon :: values).takeWhile (· ≠ .colon) = names ∧
      (names ++ .colon :: values).dropWhile (· ≠ .colon) = .colon :: values := by
  have hplain (token : Token) (hmem : token ∈ names) : decide (token ≠ .colon) = true := by
    rw [decide_eq_true_eq]
    rintro rfl
    exact h hmem
  rw [List.takeWhile_append_of_pos hplain, List.dropWhile_append_of_pos hplain]
  simp

/-- Tokens are cut at their first colon in one way only. -/
private theorem cut_at_colon_inj {names values others rest : List Token}
    (hnames : Token.colon ∉ names) (hothers : Token.colon ∉ others)
    (h : names ++ .colon :: values = others ++ .colon :: rest) :
    others = names ∧ rest = values := by
  obtain ⟨htake, hdrop⟩ := takeWhile_dropWhile_colon values hnames
  obtain ⟨htake', hdrop'⟩ := takeWhile_dropWhile_colon rest hothers
  rw [← h, htake] at htake'
  rw [← h, hdrop] at hdrop'
  exact ⟨htake'.symm, (List.cons.inj hdrop').2.symm⟩

/-- Tokens without a colon are no declaration. -/
private theorem declaration?_eq_none {tokens : List Token} (h : Token.colon ∉ tokens) :
    declaration? tokens = none := by
  have hdrop : tokens.dropWhile (· ≠ .colon) = [] := by
    rw [List.dropWhile_eq_nil_iff]
    intro token hmem
    rw [decide_eq_true_eq]
    rintro rfl
    exact h hmem
  simp only [declaration?, hdrop]

/-- The reader finds the declaration that the tokens spell. -/
theorem declaration?_eq_some_iff {tokens : List Token} {declaration : Declaration} :
    declaration? tokens = some declaration ↔ Declares tokens declaration := by
  by_cases hcolon : Token.colon ∈ tokens
  · obtain ⟨names, values, rfl, hnames⟩ := List.eq_append_cons_of_mem hcolon
    obtain ⟨htake, hdrop⟩ := takeWhile_dropWhile_colon values hnames
    unfold declaration?
    rw [hdrop, htake]
    dsimp only
    split
    · next hfails =>
      simp only [reduceCtorEq, false_iff]
      rintro ⟨others, rest, heq, hothers, hname, hblank, hvalue, _⟩
      obtain ⟨rfl, rfl⟩ := cut_at_colon_inj hnames hothers heq
      have hany : (trimmedText others).any Text.isBlank = true := by
        simpa [hname, hvalue] using hfails
      obtain ⟨c, hmem, hc⟩ := List.any_eq_true.1 hany
      rw [hblank c hmem] at hc
      cases hc
    · next hfails =>
      simp only [Bool.or_eq_true, List.isEmpty_iff, List.any_eq_true, not_or, not_exists, not_and,
        Bool.not_eq_true] at hfails
      obtain ⟨⟨hname, hblank⟩, hvalue⟩ := hfails
      constructor
      · rintro ⟨⟩
        exact ⟨names, values, rfl, hnames, hname, hblank, hvalue, rfl⟩
      · rintro ⟨others, rest, heq, hothers, _, _, _, rfl⟩
        obtain ⟨rfl, rfl⟩ := cut_at_colon_inj hnames hothers heq
        rfl
  · rw [declaration?_eq_none hcolon]
    refine ⟨nofun, ?_⟩
    rintro ⟨names, values, rfl, _⟩
    simp at hcolon

/-- A property is kept in lower case. -/
theorem Declares.lower_property {tokens : List Token} {declaration : Declaration}
    (h : Declares tokens declaration) :
    Text.lower declaration.property = declaration.property := by
  obtain ⟨names, values, _, _, _, _, _, rfl⟩ := h
  exact Text.lower_lower _

/-- A piece that declares something is not blank. -/
theorem Declares.isBlankPiece_eq_false {tokens : List Token} {declaration : Declaration}
    (h : Declares tokens declaration) : isBlankPiece tokens = false := by
  obtain ⟨names, values, rfl, _⟩ := h
  rw [← Bool.not_eq_true, isBlankPiece_iff]
  intro hgaps
  cases hgaps .colon (by simp)

/-- The tokens between the semicolons of a run. What follows the last semicolon is a segment too. -/
def TokenRun.segments (run : TokenRun) : List (List PlacedToken) :=
  run.tokens.splitOnP (·.token = .semicolon)

/-- All segments but the last are pieces as they are; the last one is a piece too unless the run
failed in it. -/
theorem TokenRun.exists_pieces_eq (run : TokenRun) :
    ∃ complete last, run.segments = complete ++ [last] ∧
      run.pieces = complete.map .ok ++ [run.failure.elim (.ok last) .error] := by
  obtain ⟨placed, stop, failure⟩ := run
  show ∃ complete last, placed.splitOnP (·.token = .semicolon) = complete ++ [last] ∧
    (cutPieces failure placed).1 :: (cutPieces failure placed).2 =
      complete.map .ok ++ [failure.elim (.ok last) .error]
  induction placed with
  | nil => exact ⟨[], [], rfl, rfl⟩
  | cons first rest ih =>
    obtain ⟨complete, last, hsplit, hpieces⟩ := ih
    rw [List.splitOnP_cons_eq_if_modifyHead, hsplit, cutPieces]
    by_cases hsemicolon : first.token = .semicolon
    · exact ⟨[] :: complete, last, by simp [hsemicolon], by simp [hsemicolon, hpieces]⟩
    · simp only [hsemicolon, decide_false, Bool.false_eq_true, if_false]
      cases complete with
      | nil =>
        obtain ⟨hpiece, hrest⟩ := List.cons.inj hpieces
        refine ⟨[], first :: last, by simp, ?_⟩
        rw [hpiece, hrest]
        cases failure with
        | none => rfl
        | some error => rfl
      | cons segment complete =>
        obtain ⟨hpiece, hrest⟩ := List.cons.inj hpieces
        refine ⟨(first :: segment) :: complete, last, by simp, ?_⟩
        rw [hpiece, hrest]
        rfl

/-- Without a failure the pieces are the segments. -/
theorem pieces_of_failure_eq_none {run : TokenRun} (h : run.failure = none) :
    run.pieces = run.segments.map .ok := by
  obtain ⟨complete, last, hsegments, hpieces⟩ := run.exists_pieces_eq
  rw [hpieces, hsegments, h, List.map_append]
  rfl

/-- A failure is the last piece. -/
theorem exists_error_of_failure {run : TokenRun} {error : BlockError}
    (h : run.failure = some error) : .error error ∈ run.pieces := by
  obtain ⟨complete, last, _, hpieces⟩ := run.exists_pieces_eq
  rw [hpieces, h]
  exact List.mem_append_right _ (List.mem_singleton_self _)

/-- Splitting placed tokens is splitting their tokens. -/
theorem splitOnP_map_token (placed : List PlacedToken) :
    (placed.splitOnP (·.token = .semicolon)).map (List.map PlacedToken.token) =
      (placed.map PlacedToken.token).splitOnP (· = .semicolon) := by
  induction placed with
  | nil => rfl
  | cons first rest ih =>
    rw [List.map_cons, List.splitOnP_cons_eq_if_modifyHead, List.splitOnP_cons_eq_if_modifyHead,
      ← ih]
    obtain ⟨piece, pieces, hsplit⟩ :=
      List.exists_cons_of_ne_nil (List.splitOnP_ne_nil (·.token = .semicolon) rest)
    by_cases hsemicolon : first.token = .semicolon
    · simp [hsemicolon]
    · simp [hsemicolon, hsplit]

namespace Block

/-- A block does not contain a property when no declaration has its name. -/
theorem contains_eq_false_iff {block : Block} {property : String} :
    block.contains property = false ↔
      ∀ declaration ∈ block.declarations,
        Text.sameName declaration.property property = false := by
  simp only [contains, get?, Option.isSome_eq_false_iff, Option.isNone_iff_eq_none,
    List.find?_eq_none, Bool.not_eq_true]

/-- A push succeeds exactly when no declaration of the block refuses the new one. -/
theorem push_eq_ok_iff_mayPrecede {block pushed : Block} {declaration : Declaration} :
    block.push declaration = .ok pushed ↔
      (∀ earlier ∈ block.declarations, earlier.MayPrecede declaration) ∧
        pushed = ⟨block.declarations ++ [declaration]⟩ := by
  rw [push_eq_ok_iff, ← and_assoc]
  refine and_congr_left fun _ => ?_
  simp only [contains_eq_false_iff, Declaration.MayPrecede, Property.resets, List.any_eq_false,
    Bool.not_eq_true]
  constructor
  · rintro ⟨hown, hreset⟩ earlier hmem
    exact ⟨hown earlier hmem, fun longhand hlonghand =>
      Text.sameName_comm earlier.property longhand ▸ hreset longhand hlonghand earlier hmem⟩
  · intro h
    exact ⟨fun earlier hmem => (h earlier hmem).1, fun longhand hlonghand earlier hmem =>
      Text.sameName_comm longhand earlier.property ▸ (h earlier hmem).2 longhand hlonghand⟩

/-- Pushing declarations in order succeeds exactly when none is refused by what stands before it. -/
theorem foldlM_push_eq_ok_iff {block pushed : Block} {declarations : List Declaration} :
    declarations.foldlM push block = .ok pushed ↔
      (∀ later ∈ declarations, ∀ earlier ∈ block.declarations, earlier.MayPrecede later) ∧
        declarations.Pairwise Declaration.MayPrecede ∧
        pushed = ⟨block.declarations ++ declarations⟩ := by
  induction declarations generalizing block with
  | nil =>
    rw [List.foldlM_nil]
    simp only [List.not_mem_nil, false_implies, implies_true, List.Pairwise.nil, true_and,
      List.append_nil]
    exact Except.ok.injEq block pushed ▸ eq_comm
  | cons declaration rest ih =>
    rw [List.foldlM_cons, bind_eq_ok_iff]
    simp only [push_eq_ok_iff_mayPrecede, ih, List.pairwise_cons, List.forall_mem_cons]
    constructor
    · rintro ⟨_, ⟨hfirst, rfl⟩, hrest, hpairwise, rfl⟩
      simp only [List.forall_mem_append, List.forall_mem_singleton] at hrest
      exact ⟨⟨hfirst, fun later hmem => (hrest later hmem).1⟩,
        ⟨fun later hmem => (hrest later hmem).2, hpairwise⟩, by simp⟩
    · rintro ⟨⟨hfirst, hrest⟩, ⟨hnext, hpairwise⟩, rfl⟩
      refine ⟨_, ⟨hfirst, rfl⟩, fun later hmem => ?_, hpairwise, by simp⟩
      simp only [List.forall_mem_append, List.forall_mem_singleton]
      exact ⟨hrest later hmem, hnext later hmem⟩

/-- A blank piece adds nothing, and any other is pushed as the declaration it spells. -/
theorem addPiece_eq_ok_iff {block after : Block} {placed : List PlacedToken} :
    block.addPiece placed = .ok after ↔
      if isBlankPiece (placed.map PlacedToken.token) then after = block
      else ∃ declaration, declaration? (placed.map PlacedToken.token) = some declaration ∧
        block.push declaration = .ok after := by
  cases placed with
  | nil => simp [addPiece, isBlankPiece, eq_comm]
  | cons first rest =>
    unfold addPiece isBlankPiece
    dsimp only
    split
    · rw [Except.ok.injEq, eq_comm]
    · split
      · next declaration hdeclaration =>
        simp only [hdeclaration, Option.some.injEq, exists_eq_left']
      · next hnone => simp only [hnone, reduceCtorEq, false_and, exists_false]

/-- Pieces are added exactly when those that are not blank spell declarations which can be
pushed. -/
theorem foldlM_addPiece_eq_ok_iff {block after : Block} {pieces : List (List PlacedToken)} :
    (pieces.map Except.ok).foldlM (fun block piece => piece.bind block.addPiece) block =
        .ok after ↔
      ∃ declarations : List Declaration,
        ((pieces.map (List.map PlacedToken.token)).filter fun piece => !isBlankPiece piece).map
            declaration? = declarations.map some ∧
          declarations.foldlM push block = .ok after := by
  induction pieces generalizing block with
  | nil => simp [eq_comm (a := [])]
  | cons piece rest ih =>
    rw [List.map_cons, List.foldlM_cons, bind_eq_ok_iff]
    have hadd (next : Block) :
        (Except.ok piece : Piece).bind block.addPiece = .ok next ↔
          block.addPiece piece = .ok next := Iff.rfl
    simp only [hadd, ih, addPiece_eq_ok_iff, List.map_cons, List.filter_cons]
    cases hblank : isBlankPiece (piece.map PlacedToken.token) with
    | true => simp
    | false =>
      simp only [Bool.false_eq_true, if_false, Bool.not_false, if_true, List.map_cons]
      constructor
      · rintro ⟨next, ⟨declaration, hdeclaration, hpush⟩, declarations, hrest, hfold⟩
        refine ⟨declaration :: declarations, by rw [hdeclaration, hrest, List.map_cons], ?_⟩
        rw [List.foldlM_cons, hpush]
        exact hfold
      · rintro ⟨declarations, hmap, hfold⟩
        obtain ⟨declaration, others, rfl, hdeclaration, hrest⟩ := List.map_eq_cons_iff.1 hmap.symm
        rw [List.foldlM_cons, bind_eq_ok_iff] at hfold
        obtain ⟨next, hpush, hfold⟩ := hfold
        exact ⟨next, ⟨declaration, hdeclaration.symm, hpush⟩, others, hrest.symm, hfold⟩

/-- A text is read as a block exactly when everything opened in it is closed, its statements spell
the declarations of the block, and none of these is refused by those before it. -/
theorem parse_eq_ok_iff {text : String} {block : Block} :
    Block.parse text = .ok block ↔
      ∃ tokens, Lexeme.tokens? text.toList = some tokens ∧
        (statements tokens).map declaration? = block.declarations.map some ∧
        block.declarations.Pairwise Declaration.MayPrecede := by
  unfold Block.parse Lexeme.tokens? Cursor.tokens? Cursor.ofText
  cases hfailure : (Cursor.tokens ⟨text.toList, Position.start⟩).failure with
  | some error =>
    simp only [Option.isSome_some, if_true, reduceCtorEq, false_and, exists_false, iff_false]
    obtain ⟨before, after, hpieces⟩ := List.mem_iff_append.1 (exists_error_of_failure hfailure)
    rw [hpieces, List.foldlM_append, bind_eq_ok_iff]
    rintro ⟨reached, _, hrest⟩
    rw [List.foldlM_cons] at hrest
    cases hrest
  | none =>
    rw [pieces_of_failure_eq_none hfailure, foldlM_addPiece_eq_ok_iff, TokenRun.segments,
      splitOnP_map_token]
    simp only [foldlM_push_eq_ok_iff, Block.empty, List.not_mem_nil, false_implies, implies_true,
      true_and, List.nil_append, Option.isSome_none, Bool.false_eq_true, if_false,
      Option.some.injEq, exists_eq_left']
    constructor
    · rintro ⟨declarations, hmap, hpairwise, rfl⟩
      exact ⟨hmap, hpairwise⟩
    · rintro ⟨hmap, hpairwise⟩
      exact ⟨block.declarations, hmap, hpairwise, rfl⟩

end Block

end StyleForest
