import Mathlib.Data.List.Chain
import StyleForest.Declaration.Reading
import StyleForest.Proofs.Lexemes

/-!
# Spelling tokens

A row of tokens can be written down and read back when each of them is well formed and no two words
and no two gaps stand side by side: a word and a gap then stop before what follows them. The tokens
that are read off a text are such a row (`Lexeme.legible_of_tokens?`), whatever blanks and comments
the text has, and a text that spells tokens is read as these tokens, in front of everything that
the last of them stops before (`Lexeme.Spells.tokens?_append`).
-/

namespace StyleForest

open Lexeme

namespace Token

/-- The token is a word. -/
def isWord : Token → Bool
  | .word _ => true
  | _ => false

/-- The text of the token is one lexeme: nothing ends a word inside it, and a string and a group
are closed by their last character. -/
def WellFormed : Token → Prop
  | .word text => text ≠ [] ∧ spanWord text = (text, [])
  | .quoted text => ∃ quote body, text = quote :: body ∧ isQuote quote = true ∧
      spanQuoted quote body = some (body, [])
  | .group text => ∃ body, text = '(' :: body ∧ spanGroup 0 body = .ok (body, [])
  | .gap | .colon | .semicolon => True

/-- The token ends where the rest begins. -/
def StopsBefore : Token → List Char → Prop
  | .word _, rest => endsWord rest = true
  | .gap, rest => startsGap rest = false
  | _, _ => True

/-- The lexeme is read as the token wherever the token stops after it. -/
def SpelledBy (token : Token) (lexeme : List Char) : Prop :=
  ∀ rest, token.StopsBefore rest → scan (lexeme ++ rest) = .token token lexeme rest

/-- The tokens can stand side by side: they are not two words and not two gaps. -/
def Apart (token next : Token) : Prop :=
  ¬(token.isWord = true ∧ next.isWord = true) ∧ ¬(token = .gap ∧ next = .gap)

/-- Every token may follow a colon. -/
theorem colon_apart (next : Token) : Token.colon.Apart next := by
  simp [Apart, isWord]

/-- A colon may follow every token. -/
theorem apart_colon (token : Token) : token.Apart .colon := by
  simp [Apart, isWord]

/-- A semicolon may follow every token. -/
theorem apart_semicolon (token : Token) : token.Apart .semicolon := by
  simp [Apart, isWord]

/-- Every token but a gap may follow a gap. -/
theorem gap_apart {next : Token} (h : next ≠ .gap) : Token.gap.Apart next := by
  simp [Apart, isWord, h]

/-- The end of the text ends every token. -/
theorem stopsBefore_nil (token : Token) : token.StopsBefore [] := by
  cases token with
  | word text => rfl
  | gap => rfl
  | quoted text => exact trivial
  | group text => exact trivial
  | colon => exact trivial
  | semicolon => exact trivial

end Token

namespace Lexeme

/-- What is known of a text when a token is read off it. -/
structure Starts (text : List Char) (token : Token) (lexeme rest : List Char) : Prop where
  wellFormed : token.WellFormed
  stops : token.StopsBefore rest
  /-- A gap stands for one space, all other tokens for what is written. -/
  lexeme_eq : token ≠ .gap → lexeme = token.text
  gap_iff : token = .gap ↔ startsGap text = true
  word_iff : token.isWord = true ↔ endsWord text = false

/-- A token that is scanned starts the text. -/
theorem starts_of_scan {text lexeme rest : List Char} {token : Token}
    (h : scan text = .token token lexeme rest) : Starts text token lexeme rest := by
  fun_cases scan text with
  | case1 => cases h
  | case2 c tail hgap gap after hspan =>
    rw [scan_gap hgap] at h
    cases h
    exact ⟨trivial, startsGap_spanGap false _, by simp, by simp [hgap],
      by simp [Token.isWord, endsWord_cons_iff, ← Bool.not_eq_true, hgap]⟩
  | case3 tail hgap =>
    rw [scan_colon] at h
    cases h
    exact ⟨trivial, trivial, fun _ => rfl, by simp [hgap], by simp [Token.isWord, endsWord]⟩
  | case4 tail hgap _ =>
    rw [scan_semicolon] at h
    cases h
    exact ⟨trivial, trivial, fun _ => rfl, by simp [hgap], by simp [Token.isWord, endsWord]⟩
  | case5 c tail hgap _ _ hquote body after hspan =>
    rw [scan_quoted hquote hspan] at h
    cases h
    have hbody := spanQuoted_append_right (ne_backslash_of_isQuote hquote) hspan []
    rw [List.append_nil] at hbody
    exact ⟨⟨c, body, rfl, hquote, hbody⟩, trivial, fun _ => rfl, by simp [hgap],
      by simp [Token.isWord, endsWord, hquote]⟩
  | case6 c tail hgap hcolon hsemicolon hquote hspan =>
    simp [scan, hgap, hcolon, hsemicolon, hquote, hspan] at h
  | case7 tail body after hspan hgap =>
    rw [scan_group hspan] at h
    cases h
    have hbody := spanGroup_append_right hspan []
    rw [List.append_nil] at hbody
    exact ⟨⟨body, rfl, hbody⟩, trivial, fun _ => rfl, by simp [hgap],
      by simp [Token.isWord, endsWord]⟩
  | case8 tail inner hspan hgap => simp [scan, hgap, isQuote, hspan] at h
  | case9 c tail hgap hcolon hsemicolon hquote hopen word after hspan =>
    have hgo : endsWord (c :: tail) = false := by
      simp [endsWord, hcolon, hsemicolon, hquote, hopen, hgap]
    rw [scan_word hgo] at h
    cases h
    have hend : endsWord [] = true := rfl
    have hword := spanWord_append_right (c :: tail) hend
    rw [List.append_nil] at hword
    exact ⟨⟨spanWord_ne_nil hgo, hword⟩, endsWord_spanWord _, fun _ => rfl,
      by simp [hgap], by simp [Token.isWord, hgo]⟩

/-- A token that can stand before the token read off a text stops before the text. -/
theorem stopsBefore_of_scan {text lexeme rest : List Char} {token next : Token}
    (h : scan text = .token next lexeme rest) (hapart : token.Apart next) :
    token.StopsBefore text := by
  have hstarts := starts_of_scan h
  obtain ⟨hwords, hgaps⟩ := hapart
  cases token with
  | word word =>
    show endsWord text = true
    rw [← Bool.not_eq_false]
    exact fun hgo => hwords ⟨rfl, hstarts.word_iff.2 hgo⟩
  | gap =>
    show startsGap text = false
    rw [← Bool.not_eq_true]
    exact fun hgap => hgaps ⟨rfl, hstarts.gap_iff.2 hgap⟩
  | quoted _ => exact trivial
  | group _ => exact trivial
  | colon => exact trivial
  | semicolon => exact trivial

/-- Tokens that stop before what they are read in front of stand apart. -/
theorem apart_of_scan {text lexeme rest : List Char} {token next : Token}
    (h : scan text = .token next lexeme rest) (hstop : token.StopsBefore text) :
    token.Apart next := by
  have hstarts := starts_of_scan h
  constructor
  · rintro ⟨hword, hnext⟩
    cases token with
    | word _ =>
      have hends : endsWord text = true := hstop
      rw [hstarts.word_iff.1 hnext] at hends
      cases hends
    | _ => cases hword
  · rintro ⟨rfl, rfl⟩
    have hgap : startsGap text = false := hstop
    rw [hstarts.gap_iff.1 rfl] at hgap
    cases hgap

end Lexeme

namespace Token

/-- A gap is spelled by one or more blanks. -/
theorem gap_spelledBy {blanks : List Char} (hne : blanks ≠ [])
    (hblank : ∀ c ∈ blanks, Text.isBlank c = true) : Token.gap.SpelledBy blanks := by
  intro rest hstop
  obtain ⟨c, tail, rfl⟩ := List.exists_cons_of_ne_nil hne
  have hstart : startsGap ((c :: tail) ++ rest) = true :=
    startsGap_cons_iff.2 (Or.inl (hblank c List.mem_cons_self))
  rw [scan_gap hstart, spanGap_blanks hblank, spanGap_of_not_startsGap hstop, List.append_nil]

/-- A well-formed token is spelled by its text. -/
theorem WellFormed.spelledBy {token : Token} (h : token.WellFormed) :
    token.SpelledBy token.text := by
  intro rest hstop
  cases token with
  | word text =>
    have happend := spanWord_append_right text hstop
    rw [h.2] at happend
    have hgo : endsWord (text ++ rest) = false := by
      rw [← Bool.not_eq_true]
      intro hends
      rw [spanWord_of_endsWord hends, Prod.mk.injEq] at happend
      exact h.1 happend.1.symm
    rw [Token.text, scan_word hgo, happend]
  | quoted text =>
    obtain ⟨quote, body, rfl, hquote, hspan⟩ := h
    exact scan_quoted hquote
      (spanQuoted_append_right (ne_backslash_of_isQuote hquote) hspan rest)
  | group text =>
    obtain ⟨body, rfl, hspan⟩ := h
    exact scan_group (spanGroup_append_right hspan rest)
  | gap => exact gap_spelledBy (by simp) (List.forall_mem_singleton.2 rfl) rest hstop
  | colon => exact scan_colon rest
  | semicolon => exact scan_semicolon rest

end Token

/-- The tokens from the cursor on, if everything that is opened is closed. -/
def Cursor.tokens? (cursor : Cursor) : Option (List Token) :=
  if cursor.tokens.failure.isSome then none
  else some (cursor.tokens.tokens.map PlacedToken.token)

/-- The tokens of a text, if everything that is opened is closed. -/
def Lexeme.tokens? (text : List Char) : Option (List Token) :=
  Cursor.tokens? ⟨text, Position.start⟩

/-- A text is read as tokens when nothing in it stays open. -/
theorem Lexeme.tokens?_eq_some_iff {text : List Char} {tokens : List Token} :
    tokens? text = some tokens ↔
      (Cursor.tokens ⟨text, Position.start⟩).failure = none ∧
        (Cursor.tokens ⟨text, Position.start⟩).tokens.map PlacedToken.token = tokens := by
  unfold tokens? Cursor.tokens?
  split
  · next hfailure =>
    obtain ⟨error, herror⟩ := Option.isSome_iff_exists.1 hfailure
    simp [herror]
  · next hfailure => simp [Option.not_isSome_iff_eq_none.1 hfailure]

private theorem Cursor.tokens?_eq (cursor : Cursor) :
    cursor.tokens? =
      match scan cursor.rest with
      | .finished => some []
      | .token token lexeme rest =>
        (Cursor.tokens? ⟨rest, cursor.position.after lexeme⟩).map (token :: ·)
      | .unclosed _ => none := by
  unfold tokens?
  rw [Cursor.tokens]
  split
  · next after hnext =>
    unfold Cursor.next at hnext
    split at hnext
    · next hscan => simp [hscan]
    · cases hnext
    · cases hnext
  · next delimiter position after hnext =>
    unfold Cursor.next at hnext
    split at hnext
    · cases hnext
    · cases hnext
    · next hscan => simp [hscan]
  · next token after hnext =>
    unfold Cursor.next at hnext
    split at hnext
    · cases hnext
    · next hscan =>
      cases hnext
      simp only [hscan]
      split
      · rfl
      · rfl
    · cases hnext

namespace Lexeme

/-- The tokens of a text do not depend on where it stands. -/
theorem tokens?_of_rest (text : List Char) (position : Position) :
    Cursor.tokens? ⟨text, position⟩ = tokens? text := by
  induction hlength : text.length using Nat.strong_induction_on generalizing text position with
  | _ length ih =>
    rw [tokens?, Cursor.tokens?_eq, Cursor.tokens?_eq]
    dsimp only
    cases hscan : scan text with
    | finished => rfl
    | token token lexeme rest =>
      have hshorter : rest.length < length := hlength ▸ length_lt_of_scan hscan
      dsimp only
      rw [ih rest.length hshorter rest _ rfl, ih rest.length hshorter rest _ rfl]
    | unclosed unclosed => rfl

/-- The tokens of a text are its first token and those of the rest. -/
theorem tokens?_of_scan {text lexeme rest : List Char} {token : Token}
    (h : scan text = .token token lexeme rest) :
    tokens? text = (tokens? rest).map (token :: ·) := by
  rw [tokens?, Cursor.tokens?_eq]
  simp only [h, tokens?_of_rest]

/-- A text that begins with something unclosed has no tokens. -/
theorem tokens?_of_unclosed {text : List Char} {unclosed : Unclosed}
    (h : scan text = .unclosed unclosed) : tokens? text = none := by
  rw [tokens?, Cursor.tokens?_eq]
  simp only [h]

@[simp] theorem tokens?_nil : tokens? [] = some [] := by
  rw [tokens?, Cursor.tokens?_eq]
  rfl

/-- The first token of a text is the one that is scanned, and the others are those of the rest. -/
theorem tokens?_eq_cons_iff {text : List Char} {token : Token} {tokens : List Token} :
    tokens? text = some (token :: tokens) ↔
      ∃ lexeme rest, scan text = .token token lexeme rest ∧ tokens? rest = some tokens := by
  constructor
  · intro h
    cases hscan : scan text with
    | finished =>
      rw [scan_eq_finished_iff.1 hscan, tokens?_nil] at h
      cases h
    | token first lexeme rest =>
      rw [tokens?_of_scan hscan] at h
      obtain ⟨others, hrest, heq⟩ := Option.map_eq_some_iff.1 h
      cases heq
      exact ⟨lexeme, rest, rfl, hrest⟩
    | unclosed unclosed => simp [tokens?_of_unclosed hscan] at h
  · rintro ⟨lexeme, rest, hscan, hrest⟩
    rw [tokens?_of_scan hscan, hrest, Option.map_some]

/-- The tokens can be written down and read back: each is well formed, and neighbours stand
apart. -/
structure Legible (tokens : List Token) : Prop where
  wellFormed : ∀ token ∈ tokens, token.WellFormed
  apart : tokens.IsChain Token.Apart

/-- A part of a legible list is legible. -/
theorem Legible.of_part {tokens part : List Token} (h : Legible tokens) (hpart : part <:+: tokens) :
    Legible part := by
  obtain ⟨before, after, rfl⟩ := hpart
  refine ⟨fun token hmem => h.wellFormed token ?_, h.apart.left_of_append.right_of_append⟩
  exact List.mem_append_left _ (List.mem_append_right _ hmem)

/-- Legible lists in a row are legible when they stand apart where they meet. -/
theorem Legible.append {tokens others : List Token} (h : Legible tokens) (hothers : Legible others)
    (hapart : ∀ token ∈ tokens.getLast?, ∀ next ∈ others.head?, token.Apart next) :
    Legible (tokens ++ others) :=
  ⟨List.forall_mem_append.2 ⟨h.wellFormed, hothers.wellFormed⟩,
    List.isChain_append.2 ⟨h.apart, hothers.apart, hapart⟩⟩

/-- A well-formed token that stands apart may be put in front. -/
theorem Legible.cons {token : Token} {tokens : List Token} (h : Legible tokens)
    (htoken : token.WellFormed) (hapart : ∀ next ∈ tokens.head?, token.Apart next) :
    Legible (token :: tokens) :=
  ⟨List.forall_mem_cons.2 ⟨htoken, h.wellFormed⟩, List.isChain_cons.2 ⟨hapart, h.apart⟩⟩

/-- The empty list is legible. -/
theorem legible_nil : Legible [] :=
  ⟨by simp, .nil⟩

/-- The tokens of a text are legible. -/
theorem legible_of_tokens? {text : List Char} {tokens : List Token}
    (h : tokens? text = some tokens) : Legible tokens := by
  induction tokens generalizing text with
  | nil => exact legible_nil
  | cons token tokens ih =>
    obtain ⟨lexeme, rest, hscan, hrest⟩ := tokens?_eq_cons_iff.1 h
    have hstarts := starts_of_scan hscan
    refine (ih hrest).cons hstarts.wellFormed fun next hnext => ?_
    obtain ⟨others, rfl⟩ := List.head?_eq_some_iff.1 hnext
    obtain ⟨_, _, hnextScan, _⟩ := tokens?_eq_cons_iff.1 hrest
    exact apart_of_scan hnextScan hstarts.stops

/-- The text is one lexeme for each of the tokens, and neighbours stand apart. -/
inductive Spells : List Char → List Token → Prop
  | nil : Spells [] []
  | cons {token : Token} {lexeme rest : List Char} {tokens : List Token}
      (hspelled : token.SpelledBy lexeme) (hapart : ∀ next ∈ tokens.head?, token.Apart next)
      (hrest : Spells rest tokens) : Spells (lexeme ++ rest) (token :: tokens)

namespace Spells

variable {text more : List Char} {tokens others : List Token}

/-- A lexeme spells its token. -/
theorem single {token : Token} {lexeme : List Char} (h : token.SpelledBy lexeme) :
    Spells lexeme [token] := by
  have hsingle : Spells (lexeme ++ []) [token] := .cons h (by simp) .nil
  rwa [List.append_nil] at hsingle

/-- Spellings in a row spell the tokens of both when these stand apart where they meet. -/
theorem append (h : Spells text tokens) (hmore : Spells more others)
    (hapart : ∀ token ∈ tokens.getLast?, ∀ next ∈ others.head?, token.Apart next) :
    Spells (text ++ more) (tokens ++ others) := by
  induction h with
  | nil => exact hmore
  | @cons token lexeme rest tokens hspelled hneighbour hrest ih =>
    have htail := ih fun last hlast next hnext =>
      hapart last (List.mem_getLast?_cons hlast) next hnext
    rw [List.append_assoc]
    refine .cons hspelled (fun next hnext => ?_) htail
    cases tokens with
    | nil => exact hapart token rfl next hnext
    | cons first tokens => exact hneighbour next hnext

/-- A token that stands apart from the first token stops before the text. -/
theorem stopsBefore (h : Spells text tokens) {rest : List Char}
    (hstop : ∀ token ∈ tokens.getLast?, token.StopsBefore rest) {token : Token}
    (hapart : ∀ next ∈ tokens.head?, token.Apart next)
    (hend : tokens = [] → token.StopsBefore rest) : token.StopsBefore (text ++ rest) := by
  induction h generalizing token with
  | nil => exact hend rfl
  | @cons next lexeme text tokens hspelled hneighbour htext ih =>
    have hnext : next.StopsBefore (text ++ rest) :=
      ih (fun last hlast => hstop last (List.mem_getLast?_cons hlast)) hneighbour
        fun hnil => hstop next (by rw [hnil]; rfl)
    rw [List.append_assoc]
    exact stopsBefore_of_scan (hspelled _ hnext) (hapart next rfl)

/-- What is spelled is read, in front of everything that the last token stops before. -/
theorem tokens?_append (h : Spells text tokens) {rest : List Char}
    (hstop : ∀ token ∈ tokens.getLast?, token.StopsBefore rest) :
    tokens? (text ++ rest) = (tokens? rest).map (tokens ++ ·) := by
  induction h with
  | nil => simp
  | @cons token lexeme text tokens hspelled hneighbour htext ih =>
    have htail (last : Token) (hlast : last ∈ tokens.getLast?) : last.StopsBefore rest :=
      hstop last (List.mem_getLast?_cons hlast)
    have htoken : token.StopsBefore (text ++ rest) :=
      htext.stopsBefore htail hneighbour fun hnil => hstop token (by rw [hnil]; rfl)
    rw [List.append_assoc, tokens?_of_scan (hspelled _ htoken), ih htail, Option.map_map]
    rfl

/-- The tokens of a text are the ones that it spells. -/
theorem tokens?_eq (h : Spells text tokens) : tokens? text = some tokens := by
  have hstop (token : Token) (_ : token ∈ tokens.getLast?) : token.StopsBefore [] :=
    token.stopsBefore_nil
  have happend := h.tokens?_append hstop
  rwa [List.append_nil, tokens?_nil, Option.map_some, List.append_nil] at happend

end Spells

/-- Legible tokens are spelled by their texts. -/
theorem Legible.spells {tokens : List Token} (h : Legible tokens) :
    Spells (tokens.flatMap Token.text) tokens := by
  induction tokens with
  | nil => exact .nil
  | cons token tokens ih =>
    obtain ⟨hapart, hchain⟩ := List.isChain_cons.1 h.apart
    have hwellFormed : token.WellFormed := h.wellFormed token List.mem_cons_self
    exact .cons hwellFormed.spelledBy hapart
      (ih ⟨fun other hmem => h.wellFormed other (List.mem_cons_of_mem token hmem), hchain⟩)

end Lexeme

end StyleForest
