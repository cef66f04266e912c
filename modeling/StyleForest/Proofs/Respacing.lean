import StyleForest.Proofs.Calls
import StyleForest.Proofs.Grammar

/-!
# Texts with other blanks and comments

Only that there is a gap counts, and not which one. The texts of the tokens in a row, with one space
for each gap, are read as the same tokens, and so is a text in which a run of blanks and comments is
replaced by another one. Texts with the same tokens are read as the same block, or refused for the
same reason at their own positions (`Block.parse_respaced`).
-/

namespace StyleForest

open Lexeme

/-- Folds fail alike when their steps do. -/
theorem mapError_foldlM_congr {α β γ δ ε : Type} {wording : ε → δ} {step : β → α → Except ε β}
    {other : β → γ → Except ε β} {items : List α} {others : List γ}
    (h : items.Forall₂ (fun a c => ∀ b, (step b a).mapError wording =
      (other b c).mapError wording) others) (start : β) :
    (items.foldlM step start).mapError wording = (others.foldlM other start).mapError wording := by
  induction h generalizing start with
  | nil => rfl
  | @cons a c items others hsteps _ ih =>
    have hfirst := hsteps start
    rw [List.foldlM_cons, List.foldlM_cons]
    cases hstep : step start a with
    | ok b =>
      rw [hstep] at hfirst
      rw [mapError_eq_ok_iff.1 hfirst.symm]
      exact ih b
    | error error =>
      cases hother : other start c with
      | ok b => simp [hstep, hother, Except.mapError] at hfirst
      | error reason =>
        rw [hstep, hother] at hfirst
        exact hfirst

/-- The error without its position. -/
def BlockError.unplaced : BlockError → BlockError
  | .malformed text _ => .malformed text Position.start
  | .unterminated opened _ => .unterminated opened Position.start
  | error => error

namespace Block

/-- What a piece adds to a block depends on its tokens alone. -/
theorem mapError_addPiece_congr {placed others : List PlacedToken}
    (h : placed.map PlacedToken.token = others.map PlacedToken.token) (block : Block) :
    (block.addPiece placed).mapError BlockError.unplaced =
      (block.addPiece others).mapError BlockError.unplaced := by
  cases placed with
  | nil =>
    obtain rfl := List.map_eq_nil_iff.1 h.symm
    rfl
  | cons first rest =>
    cases others with
    | nil => simp at h
    | cons other others =>
      unfold addPiece
      dsimp only
      rw [h]
      split
      · rfl
      · split
        · rfl
        · rfl

end Block

/-- Texts with the same tokens are read alike. -/
theorem Block.parse_congr_of_tokens {text other : String} {tokens : List Token}
    (h : tokens? text.toList = some tokens) (hother : tokens? other.toList = some tokens) :
    (Block.parse text).mapError BlockError.unplaced =
      (Block.parse other).mapError BlockError.unplaced := by
  obtain ⟨hclosed, htokens⟩ := tokens?_eq_some_iff.1 h
  obtain ⟨hclosed', htokens'⟩ := tokens?_eq_some_iff.1 hother
  have hsegments : (Cursor.tokens ⟨text.toList, Position.start⟩).segments.map
      (List.map PlacedToken.token) =
        (Cursor.tokens ⟨other.toList, Position.start⟩).segments.map
          (List.map PlacedToken.token) := by
    rw [TokenRun.segments, TokenRun.segments, splitOnP_map_token, splitOnP_map_token, htokens,
      htokens']
  unfold Block.parse Cursor.ofText
  rw [pieces_of_failure_eq_none hclosed, pieces_of_failure_eq_none hclosed']
  refine mapError_foldlM_congr ?_ Block.empty
  rw [List.forall₂_map_left_iff, List.forall₂_map_right_iff]
  rw [← List.forall₂_eq_eq_eq, List.forall₂_map_left_iff, List.forall₂_map_right_iff] at hsegments
  exact hsegments.imp fun placed others heq block => mapError_addPiece_congr heq block

/-- Calls that do not get to the end of a text read tokens that it spells. -/
theorem Cursor.exists_spells_of_afterReads (cursor : Cursor) {n : Nat}
    (h : (cursor.afterReads n).rest ≠ []) :
    ∃ front tokens, cursor.rest = front ++ (cursor.afterReads n).rest ∧ Spells front tokens ∧
      ∀ token ∈ tokens.getLast?, token.StopsBefore (cursor.afterReads n).rest := by
  induction n with
  | zero => exact ⟨[], [], rfl, .nil, by simp⟩
  | succ n ih =>
    rw [afterReads_succ] at h ⊢
    generalize cursor.afterReads n = reached at h ih ⊢
    cases hscan : scan reached.rest with
    | finished =>
      rw [next, hscan] at h
      exact absurd (scan_eq_finished_iff.1 hscan) h
    | unclosed unclosed => simp [next, hscan] at h
    | token token lexeme rest =>
      rw [next_of_token hscan] at h ⊢
      have hfilled : reached.rest ≠ [] := by
        rintro hnil
        rw [hnil] at hscan
        cases hscan
      have hclosed : ¬OpenGaps reached.rest := by
        intro hopen
        rw [hopen.scan_eq] at hscan
        cases hscan
        exact h rfl
      obtain ⟨front, tokens, hsplit, hspells, hstop⟩ := ih hfilled
      have hsingle : Spells lexeme [token] := .single (spelledBy_of_scan hscan hclosed)
      refine ⟨front ++ lexeme, tokens ++ [token], ?_, ?_, ?_⟩
      · rw [hsplit, ← scan_append hscan, List.append_assoc]
      · refine hspells.append hsingle fun last hlast next hnext => ?_
        cases hnext
        exact apart_of_scan hscan (hstop last hlast)
      · intro last hlast
        rw [List.getLast?_concat] at hlast
        cases hlast
        exact (starts_of_scan hscan).stops

/-- A call on a reader of the text reads the run between the other two parts as a gap. -/
def ReadsGap (text : String) (before run after : List Char) : Prop :=
  text.toList = before ++ (run ++ after) ∧
    ∃ n, ((Cursor.ofText text).afterReads n).rest = run ++ after ∧
      ((Cursor.ofText text).afterReads n).next.1 = .token .gap ∧
      ((Cursor.ofText text).afterReads (n + 1)).rest = after

/-- Another run in the place of one that is read as a gap leaves the tokens as they are. -/
theorem ReadsGap.tokens?_eq {text : String} {before run after other : List Char}
    (h : ReadsGap text before run after) (hother : IsGapBefore other after) :
    tokens? (before ++ (other ++ after)) = tokens? text.toList := by
  obtain ⟨hsplit, n, hrest, hgap, hafter⟩ := h
  rw [Cursor.afterReads_succ] at hafter
  obtain ⟨lexeme, hscan⟩ := Cursor.scan_of_next (Prod.ext hgap rfl)
  rw [hrest, hafter] at hscan
  have hfilled : ((Cursor.ofText text).afterReads n).rest ≠ [] := by
    rintro hnil
    rw [← hrest, hnil] at hscan
    cases hscan
  obtain ⟨front, tokens, hfront, hspells, hstop⟩ := Cursor.exists_spells_of_afterReads _ hfilled
  obtain rfl : front = before := by
    rw [hrest] at hfront
    exact List.append_cancel_right (hfront.symm.trans hsplit)
  have hscan' := hother.scan_append (starts_of_scan hscan).stops
  have hstop' (token : Token) (hlast : token ∈ tokens.getLast?) :
      token.StopsBefore (other ++ after) :=
    stopsBefore_of_scan hscan' (apart_of_scan hscan (hrest ▸ hstop token hlast))
  rw [hspells.tokens?_append hstop', tokens?_of_scan hscan', hsplit,
    hspells.tokens?_append (hrest ▸ hstop), tokens?_of_scan hscan]

/-- The other text is read as these tokens, and as a block it is read as the text is: as the same
block, or refused with the same error up to its position. -/
structure ReadAlike (text other : String) (tokens : List Token) : Prop where
  tokens_eq : tokens? other.toList = some tokens
  parse_eq : (Block.parse other).mapError BlockError.unplaced =
    (Block.parse text).mapError BlockError.unplaced

/-- A text that is read as tokens is read as the same tokens, and alike as a block, when each gap is
one space, and when any run that is read as a gap is replaced by another one. -/
theorem Block.parse_respaced {text : String} {tokens : List Token}
    (h : tokens? text.toList = some tokens) :
    ReadAlike text (String.ofList (tokens.flatMap Token.text)) tokens ∧
      ∀ before run after other, ReadsGap text before run after → IsGapBefore other after →
        ReadAlike text (String.ofList (before ++ (other ++ after))) tokens := by
  constructor
  · have hspaced : tokens? (String.ofList (tokens.flatMap Token.text)).toList = some tokens := by
      rw [String.toList_ofList]
      exact (legible_of_tokens? h).spells.tokens?_eq
    exact ⟨hspaced, parse_congr_of_tokens hspaced h⟩
  · intro before run after other hreads hother
    have hrespaced : tokens? (String.ofList (before ++ (other ++ after))).toList = some tokens := by
      rw [String.toList_ofList, hreads.tokens?_eq hother, h]
    exact ⟨hrespaced, parse_congr_of_tokens hrespaced h⟩

/-- A comment between a colon and a value is replaced by a line break. -/
theorem Block.commented_color_respaced :
    let tokens : List Token := [.word "color".toList, .colon, .gap, .word "red".toList]
    tokens? "color:/* old */red".toList = some tokens ∧
      ReadAlike "color:/* old */red" "color: red" tokens ∧
      ReadsGap "color:/* old */red" "color:".toList "/* old */".toList "red".toList ∧
      IsGapBefore ['\n'] "red".toList ∧
      ReadAlike "color:/* old */red" "color:\nred" tokens := by
  intro tokens
  have htokens : tokens? "color:/* old */red".toList = some tokens := by decide +kernel
  have hreads : ReadsGap "color:/* old */red" "color:".toList "/* old */".toList "red".toList :=
    ⟨rfl, 2, by decide +kernel, by decide +kernel, by decide +kernel⟩
  have hfeed : IsGapBefore ['\n'] "red".toList :=
    Or.inl ⟨List.cons_ne_nil _ _, .blank (by decide) .nil⟩
  exact ⟨htokens, (parse_respaced htokens).1, hreads, hfeed,
    (parse_respaced htokens).2 _ _ _ _ hreads hfeed⟩

end StyleForest
