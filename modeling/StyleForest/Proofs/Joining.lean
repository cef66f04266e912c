import StyleForest.Proofs.Calls
import StyleForest.Proofs.Verdict

/-!
# Joined declaration texts

A text that does not end inside a comment is read in front of a semicolon as it is read alone, and
what comes after the semicolon is read as if nothing stood before it. So two texts with a semicolon
between them are read as the first block with the declarations of the second one pushed onto it, in
order (`Block.parse_join`).
-/

namespace StyleForest

open Lexeme

/-- Some call on a reader of the text comes to a run of blanks and comments in which a comment is
never closed. -/
def EndsInComment (text : String) : Prop :=
  ∃ n, OpenGaps ((Cursor.ofText text).afterReads n).rest

/-- A text without the beginning of a comment does not end inside one. -/
theorem not_endsInComment {text : String} (h : ¬['/', '*'] <:+: text.toList) :
    ¬EndsInComment text := by
  rintro ⟨n, gaps, body, hrest, _, _⟩
  obtain ⟨read, hsplit, _⟩ := Cursor.at_afterReads text n
  exact h ⟨read ++ gaps, body, by simp [hsplit, hrest]⟩

/-- A text that is read as tokens spells them when no call comes to an open comment. -/
theorem spells_of_tokens? {cursor : Cursor} {tokens : List Token}
    (h : tokens? cursor.rest = some tokens)
    (hclosed : ∀ n, ¬OpenGaps (cursor.afterReads n).rest) : Spells cursor.rest tokens := by
  induction tokens generalizing cursor with
  | nil =>
    cases hscan : scan cursor.rest with
    | finished =>
      rw [scan_eq_finished_iff.1 hscan]
      exact .nil
    | token token lexeme rest => simp [tokens?_of_scan hscan] at h
    | unclosed unclosed => simp [tokens?_of_unclosed hscan] at h
  | cons token tokens ih =>
    obtain ⟨lexeme, rest, hscan, hrest⟩ := tokens?_eq_cons_iff.1 h
    have hnext := Cursor.next_of_token hscan
    have hlater (n : Nat) :
        ¬OpenGaps (Cursor.afterReads ⟨rest, cursor.position.after lexeme⟩ n).rest := by
      have hshift := hclosed (n + 1)
      rwa [Cursor.afterReads, Function.iterate_succ_apply, hnext] at hshift
    rw [← scan_append hscan]
    refine .cons (spelledBy_of_scan hscan (hclosed 0)) (fun next hmem => ?_) (ih hrest hlater)
    obtain ⟨others, rfl⟩ := List.head?_eq_some_iff.1 hmem
    obtain ⟨_, _, hscan', _⟩ := tokens?_eq_cons_iff.1 hrest
    exact apart_of_scan hscan' (starts_of_scan hscan).stops

/-- A semicolon ends every token. -/
theorem Token.stopsBefore_semicolon (token : Token) (rest : List Char) :
    token.StopsBefore (';' :: rest) := by
  cases token with
  | word text => exact endsWord_cons_iff.2 (Or.inl (by simp))
  | gap => exact startsGap_eq_false (by decide) (by decide) rest
  | quoted text => exact trivial
  | group text => exact trivial
  | colon => exact trivial
  | semicolon => exact trivial

/-- The tokens of two texts with a semicolon between them are those of the texts. -/
theorem tokens?_join {first second : String} {tokens others : List Token}
    (h : tokens? first.toList = some tokens) (hclosed : ¬EndsInComment first)
    (hsecond : tokens? second.toList = some others) :
    tokens? (first ++ ";" ++ second).toList = some (tokens ++ .semicolon :: others) := by
  have hspells : Spells (Cursor.ofText first).rest tokens :=
    spells_of_tokens? h fun n hopen => hclosed ⟨n, hopen⟩
  have hsplit : (first ++ ";" ++ second).toList =
      (Cursor.ofText first).rest ++ ';' :: second.toList := by simp [Cursor.ofText]
  rw [hsplit, hspells.tokens?_append fun token _ => token.stopsBefore_semicolon _,
    tokens?_of_scan (scan_semicolon _), hsecond]
  rfl

namespace Block

/-- When the pieces that are not blank spell declarations, adding the pieces is pushing these. -/
theorem foldlM_addPiece_eq_foldlM_push {pieces : List (List PlacedToken)}
    {declarations : List Declaration}
    (h : ((pieces.map (List.map PlacedToken.token)).filter fun piece => !isBlankPiece piece).map
      declaration? = declarations.map some) (block : Block) :
    (pieces.map Except.ok).foldlM (fun block piece => piece.bind block.addPiece) block =
      declarations.foldlM push block := by
  induction pieces generalizing declarations block with
  | nil =>
    obtain rfl := List.map_eq_nil_iff.1 h.symm
    rfl
  | cons piece rest ih =>
    rw [List.map_cons, List.foldlM_cons]
    cases hblank : isBlankPiece (piece.map PlacedToken.token) with
    | true =>
      have hadd : block.addPiece piece = .ok block := addPiece_eq_ok_iff.2 (by simp [hblank])
      simp only [List.map_cons, List.filter_cons, hblank, Bool.not_true, Bool.false_eq_true,
        if_false] at h
      exact (congrArg (· >>= _) hadd).trans (ih h block)
    | false =>
      simp only [List.map_cons, List.filter_cons, hblank, Bool.not_false, if_true] at h
      obtain ⟨declaration, others, rfl, hdeclaration, hothers⟩ := List.map_eq_cons_iff.1 h.symm
      obtain ⟨first, placed, rfl⟩ : ∃ first placed, piece = first :: placed :=
        List.exists_cons_of_ne_nil (by rintro rfl; cases hblank)
      have hadd : block.addPiece (first :: placed) = block.push declaration := by
        rw [addPiece_cons_of_solid hblank, ← hdeclaration]
      rw [List.foldlM_cons, ← hadd]
      exact congrArg (block.addPiece (first :: placed) >>= ·)
        (funext fun next => ih hothers.symm next)

/-- A text whose statements spell declarations is read by pushing these onto the empty block. -/
theorem parse_eq_foldlM_push {text : String} {tokens : List Token}
    {declarations : List Declaration} (htokens : tokens? text.toList = some tokens)
    (hspelled : (statements tokens).map declaration? = declarations.map some) :
    Block.parse text = declarations.foldlM push Block.empty := by
  obtain ⟨hclosed, rfl⟩ := tokens?_eq_some_iff.1 htokens
  unfold Block.parse Cursor.ofText
  rw [pieces_of_failure_eq_none hclosed]
  refine foldlM_addPiece_eq_foldlM_push ?_ Block.empty
  rw [TokenRun.segments, splitOnP_map_token]
  exact hspelled

/-- Two texts that are read as blocks, the first of which does not end inside a comment, are read
with a semicolon between them as the first block with the declarations of the second one pushed onto
it in order, or refused as the first of these pushes that fails. -/
theorem parse_join {first second : String} {block other : Block}
    (h : Block.parse first = .ok block) (hother : Block.parse second = .ok other)
    (hclosed : ¬EndsInComment first) :
    Block.parse (first ++ ";" ++ second) = other.declarations.foldlM push block := by
  obtain ⟨tokens, htokens, hspelled, _⟩ := parse_eq_ok_iff.1 h
  obtain ⟨others, hothers, hspelled', _⟩ := parse_eq_ok_iff.1 hother
  have hjoined : (statements (tokens ++ .semicolon :: others)).map declaration? =
      (block.declarations ++ other.declarations).map some := by
    rw [statements_append_semicolon, List.map_append, hspelled, hspelled', List.map_append]
  have hblock : block.declarations.foldlM push Block.empty = .ok block := by
    rw [← parse_eq_foldlM_push htokens hspelled, h]
  rw [parse_eq_foldlM_push (tokens?_join htokens hclosed hothers) hjoined, List.foldlM_append,
    hblock]
  rfl

/-- A slash and a star do not open a comment across the semicolon, and the property that both texts
declare is refused. -/
theorem area_is_declared_twice :
    let block : Block := ⟨[{ property := "grid-area", value := "1 /" }]⟩
    let other : Block := ⟨[{ property := "*zoom", value := "1" },
      { property := "grid-area", value := "2" }]⟩
    Block.parse "grid-area: 1 /" = .ok block ∧ Block.parse "*zoom: 1; grid-area: 2" = .ok other ∧
      ¬EndsInComment "grid-area: 1 /" ∧
      Block.parse ("grid-area: 1 /" ++ ";" ++ "*zoom: 1; grid-area: 2") =
        other.declarations.foldlM push block ∧
      other.declarations.foldlM push block = .error (.duplicate "grid-area") := by
  intro block other
  have hblock : Block.parse "grid-area: 1 /" = .ok block := by decide +kernel
  have hother : Block.parse "*zoom: 1; grid-area: 2" = .ok other := by decide +kernel
  have hclosed : ¬EndsInComment "grid-area: 1 /" := not_endsInComment (by decide +kernel)
  exact ⟨hblock, hother, hclosed, parse_join hblock hother hclosed, by decide +kernel⟩

/-- An open comment takes in the semicolon and everything after it. -/
example : Block.parse ("color: red /*" ++ ";" ++ "color: blue") =
    .ok ⟨[{ property := "color", value := "red" }]⟩ := by
  decide +kernel

end Block

end StyleForest
