import StyleForest.Proofs.Spelling
import StyleForest.Text.LetterCase

/-!
# Lower case and tokens

Lower case changes letters into letters only, and no letter ends a lexeme. So a text in lower case
is cut into tokens where the text is, and tokens in lower case can be written down and read back
when the tokens can (`Lexeme.Legible.lower`).
-/

namespace StyleForest

open Lexeme

/-- A text with its ASCII letters in lower case. -/
def lowerText (text : List Char) : List Char :=
  text.map Char.toLower

@[simp] theorem lowerText_nil : lowerText [] = [] := rfl

@[simp] theorem lowerText_cons (c : Char) (rest : List Char) :
    lowerText (c :: rest) = c.toLower :: lowerText rest := rfl

@[simp] theorem lowerText_append (text more : List Char) :
    lowerText (text ++ more) = lowerText text ++ lowerText more :=
  List.map_append

/-- A letter in lower case is a blank exactly when it is one as written. -/
theorem Text.isBlank_toLower (c : Char) : isBlank c.toLower = isBlank c := by
  have hletters {d : Char} (h : d.isAlpha = true) : isBlank d = false :=
    isBlank_of_isAlphanum (by simp [Char.isAlphanum, h])
  rcases toLower_cases c with hsame | ⟨hletter, hlower⟩
  · rw [hsame]
  · rw [hletters hletter, hletters hlower]

namespace Lexeme

private theorem isQuote_toLower (c : Char) : isQuote c.toLower = isQuote c := by
  have hdouble : c.toLower = '"' ↔ c = '"' := Text.toLower_eq_iff rfl
  have hsingle : c.toLower = '\'' ↔ c = '\'' := Text.toLower_eq_iff rfl
  rw [Bool.eq_iff_iff]
  simp only [isQuote, Bool.or_eq_true, beq_iff_eq, hdouble, hsingle]

private theorem isAlpha_of_isQuote {c : Char} (h : isQuote c = true) : c.isAlpha = false := by
  simp only [isQuote, Bool.or_eq_true, beq_iff_eq] at h
  rcases h with rfl | rfl
  · rfl
  · rfl

private theorem toLower_of_isQuote {c : Char} (h : isQuote c = true) : c.toLower = c :=
  (Text.toLower_eq_iff (isAlpha_of_isQuote h)).2 rfl

private theorem startsGap_lower (text : List Char) :
    startsGap (lowerText text) = startsGap text := by
  cases text with
  | nil => rfl
  | cons c rest =>
    have hslash : c.toLower = '/' ↔ c = '/' := Text.toLower_eq_iff rfl
    have hstar : (lowerText rest).head? = some '*' ↔ rest.head? = some '*' := by
      cases rest with
      | nil => rfl
      | cons d rest => simpa using Text.toLower_eq_iff rfl
    rw [Bool.eq_iff_iff, lowerText_cons, startsGap_cons_iff, startsGap_cons_iff,
      Text.isBlank_toLower, hslash, hstar]

private theorem endsWord_lower (text : List Char) : endsWord (lowerText text) = endsWord text := by
  cases text with
  | nil => rfl
  | cons c rest =>
    have hgap : startsGap (c.toLower :: lowerText rest) = startsGap (c :: rest) :=
      startsGap_lower (c :: rest)
    have hends : c.toLower ∈ [':', ';', '"', '\'', '('] ↔ c ∈ [':', ';', '"', '\'', '('] := by
      simp only [List.mem_cons, List.not_mem_nil, or_false, Text.toLower_eq_iff (k := ':') rfl,
        Text.toLower_eq_iff (k := ';') rfl, Text.toLower_eq_iff (k := '"') rfl,
        Text.toLower_eq_iff (k := '\'') rfl, Text.toLower_eq_iff (k := '(') rfl]
    rw [Bool.eq_iff_iff, lowerText_cons, endsWord_cons_iff, endsWord_cons_iff, hgap, hends]

private theorem spanWord_lower (text : List Char) :
    spanWord (lowerText text) =
      (lowerText (spanWord text).1, lowerText (spanWord text).2) := by
  induction text with
  | nil => rfl
  | cons c rest ih =>
    have hends : endsWord (c.toLower :: lowerText rest) = endsWord (c :: rest) :=
      endsWord_lower (c :: rest)
    simp only [lowerText_cons, spanWord, hends, ih]
    split
    · rfl
    · rfl

private theorem spanQuoted_lower {quote : Char} (hquote : isQuote quote = true)
    {text body rest : List Char} (h : spanQuoted quote text = some (body, rest)) :
    spanQuoted quote (lowerText text) = some (lowerText body, lowerText rest) := by
  refine spanQuoted_induction (motive := fun text body =>
    spanQuoted quote (lowerText text) = some (lowerText body, lowerText rest)) ?_ ?_ ?_ h
  · intro c text body ih
    have hbackslash : Char.toLower '\\' = '\\' := rfl
    simp [spanQuoted, hbackslash, ih]
  · simp [spanQuoted, toLower_of_isQuote hquote, ne_backslash_of_isQuote hquote]
  · intro c text body hplain hne ih
    have hbackslash : c.toLower ≠ '\\' := by rwa [Ne, Text.toLower_eq_iff rfl]
    have hother : c.toLower ≠ quote := by rwa [Ne, Text.toLower_eq_iff (isAlpha_of_isQuote hquote)]
    simp [spanQuoted, hbackslash, hother, ih]

private theorem spanGroup_lower {depth : Nat} {text group rest : List Char}
    (h : spanGroup depth text = .ok (group, rest)) :
    spanGroup depth (lowerText text) = .ok (lowerText group, lowerText rest) := by
  refine spanGroup_induction (motive := fun depth text group =>
    spanGroup depth (lowerText text) = .ok (lowerText group, lowerText rest)) ?_ ?_ ?_ ?_ ?_ h
  · intro depth c tail body after group hquote hspan ih
    have hquote' : isQuote c.toLower = true := by rwa [isQuote_toLower]
    have hbody := spanQuoted_lower hquote hspan
    rw [← toLower_of_isQuote hquote] at hbody
    rw [lowerText_cons, spanGroup_quoted hquote' hbody, ih]
    simp [Except.map]
  · intro depth tail group ih
    have hopen : Char.toLower '(' = '(' := rfl
    rw [lowerText_cons, hopen, spanGroup_open, ih]
    rfl
  · exact spanGroup_last _
  · intro depth tail group ih
    have hclose : Char.toLower ')' = ')' := rfl
    rw [lowerText_cons, hclose, spanGroup_close, ih]
    rfl
  · intro depth c tail group hquote hopen hclose ih
    have hquote' : ¬isQuote c.toLower = true := by rwa [isQuote_toLower]
    have hopen' : c.toLower ≠ '(' := by rwa [Ne, Text.toLower_eq_iff rfl]
    have hclose' : c.toLower ≠ ')' := by rwa [Ne, Text.toLower_eq_iff rfl]
    rw [lowerText_cons, spanGroup_other hquote' hopen' hclose', ih]
    rfl

end Lexeme

namespace Token

/-- The token with its letters in lower case. -/
def lower : Token → Token
  | .word text => .word (lowerText text)
  | .quoted text => .quoted (lowerText text)
  | .group text => .group (lowerText text)
  | token => token

/-- The text of a token in lower case is its text, in lower case. -/
theorem text_lower (token : Token) : token.lower.text = lowerText token.text := by
  cases token with
  | _ => rfl

/-- Words stay words in lower case. -/
theorem isWord_lower (token : Token) : token.lower.isWord = token.isWord := by
  cases token with
  | _ => rfl

/-- The tokens without letters are the lower case of themselves only. -/
theorem lower_eq_iff {token separator : Token} (h : separator ∈ [.gap, .colon, .semicolon]) :
    token.lower = separator ↔ token = separator := by
  simp only [List.mem_cons, List.not_mem_nil, or_false] at h
  rcases h with rfl | rfl | rfl <;> cases token <;> simp [lower]

/-- A token that is well formed stays so in lower case. -/
theorem WellFormed.lower {token : Token} (h : token.WellFormed) : token.lower.WellFormed := by
  cases token with
  | word text =>
    refine ⟨by simpa [lowerText] using h.1, ?_⟩
    rw [spanWord_lower, h.2]
    rfl
  | quoted text =>
    obtain ⟨quote, body, rfl, hquote, hspan⟩ := h
    refine ⟨quote, lowerText body, ?_, hquote, spanQuoted_lower hquote hspan⟩
    rw [lowerText_cons, toLower_of_isQuote hquote]
  | group text =>
    obtain ⟨body, rfl, hspan⟩ := h
    exact ⟨lowerText body, rfl, spanGroup_lower hspan⟩
  | gap => exact trivial
  | colon => exact trivial
  | semicolon => exact trivial

/-- Tokens stand apart in lower case exactly when they do as written. -/
theorem apart_lower_iff {token next : Token} :
    token.lower.Apart next.lower ↔ token.Apart next := by
  simp only [Apart, isWord_lower, lower_eq_iff (List.mem_cons_self (a := Token.gap))]

end Token

/-- Tokens that can be written down can be written down in lower case. -/
theorem Lexeme.Legible.lower {tokens : List Token} (h : Legible tokens) :
    Legible (tokens.map Token.lower) := by
  constructor
  · simp only [List.forall_mem_map]
    exact fun token hmem => (h.wellFormed token hmem).lower
  · rw [List.isChain_map]
    simpa only [Token.apart_lower_iff] using h.apart

/-- Tokens in lower case spell their text in lower case. -/
theorem Token.flatMap_text_lower (tokens : List Token) :
    (tokens.map Token.lower).flatMap Token.text = lowerText (tokens.flatMap Token.text) := by
  rw [lowerText, List.map_flatMap, List.flatMap_map]
  simp only [Token.text_lower, lowerText]

end StyleForest
