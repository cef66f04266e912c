import StyleForest.Declaration.Token
import StyleForest.Text.Blank

/-!
# Lexemes

How far the token at the start of a text reaches. Every span splits a text into a lexeme
and the rest, which joined give the text again (`scan_append`), and the lexeme of a token
is never empty (`scan_lexeme_ne_nil`), so reading a text token by token comes to an end.
-/

namespace StyleForest

/-- The characters that open something which has to be closed. -/
inductive Delimiter where
  | quote
  | parenthesis
  deriving DecidableEq, Repr

/-- What a delimiter opens. -/
def Delimiter.name : Delimiter → String
  | .quote => "string"
  | .parenthesis => "parenthesis"

namespace Lexeme

/-- Either of the two quotes opens a string, and the same one closes it. -/
def isQuote (c : Char) : Bool :=
  c == '"' || c == '\''

/-- The text begins with a blank or a comment. -/
def startsGap : List Char → Bool
  | '/' :: '*' :: _ => true
  | c :: _ => Text.isBlank c
  | [] => false

/-- The text begins with something that cannot belong to a word. -/
def endsWord : List Char → Bool
  | [] => true
  | c :: rest => c == ':' || c == ';' || isQuote c || c == '(' || startsGap (c :: rest)

/-- Splits off the blanks and comments at the start of a text. The flag says that a comment
is open; one that is never closed runs to the end. -/
def spanGap : Bool → List Char → List Char × List Char
  | _, [] => ([], [])
  | true, '*' :: '/' :: rest =>
    let (gap, rest) := spanGap false rest
    ('*' :: '/' :: gap, rest)
  | true, c :: rest =>
    let (gap, rest) := spanGap true rest
    (c :: gap, rest)
  | false, '/' :: '*' :: rest =>
    let (gap, rest) := spanGap true rest
    ('/' :: '*' :: gap, rest)
  | false, c :: rest =>
    if Text.isBlank c then
      let (gap, rest) := spanGap false rest
      (c :: gap, rest)
    else
      ([], c :: rest)

/-- Splits off the word at the start of a text. -/
def spanWord : List Char → List Char × List Char
  | [] => ([], [])
  | c :: rest =>
    if endsWord (c :: rest) then
      ([], c :: rest)
    else
      let (word, rest) := spanWord rest
      (c :: word, rest)

/-- Splits off what is left of a string whose opening quote has been read, the closing quote
included. A backslash takes the character after it along, whatever it is. -/
def spanQuoted (quote : Char) : List Char → Option (List Char × List Char)
  | [] => none
  | '\\' :: c :: rest => (spanQuoted quote rest).map fun (body, rest) => ('\\' :: c :: body, rest)
  | c :: rest =>
    if c = quote then
      some ([c], rest)
    else
      (spanQuoted quote rest).map fun (body, rest) => (c :: body, rest)

/-- The gap and the rest make up the text. -/
theorem spanGap_append (inside : Bool) (text : List Char) :
    (spanGap inside text).1 ++ (spanGap inside text).2 = text := by
  fun_induction spanGap inside text <;> simp_all

/-- The word and the rest make up the text. -/
theorem spanWord_append (text : List Char) :
    (spanWord text).1 ++ (spanWord text).2 = text := by
  fun_induction spanWord text <;> simp_all

/-- The string with its closing quote and the rest make up the text. -/
theorem spanQuoted_append {quote : Char} {text body rest : List Char}
    (h : spanQuoted quote text = some (body, rest)) : body ++ rest = text := by
  fun_induction spanQuoted quote text generalizing body with
  | case1 => simp at h
  | case2 c text ih =>
    obtain ⟨⟨b, r⟩, hb, he⟩ := Option.map_eq_some_iff.1 h
    cases he
    simp [ih hb]
  | case3 text _ => grind
  | case4 c text _ _ ih =>
    obtain ⟨⟨b, r⟩, hb, he⟩ := Option.map_eq_some_iff.1 h
    cases he
    simp [ih hb]

/-- A string takes at least one character. -/
theorem spanQuoted_length_lt {quote : Char} {text body rest : List Char}
    (h : spanQuoted quote text = some (body, rest)) : rest.length < text.length := by
  fun_induction spanQuoted quote text generalizing body with
  | case1 => simp at h
  | case2 c text ih =>
    obtain ⟨⟨b, r⟩, hb, he⟩ := Option.map_eq_some_iff.1 h
    cases he
    have := ih hb
    simp only [List.length_cons]
    omega
  | case3 text _ => grind
  | case4 c text _ _ ih =>
    obtain ⟨⟨b, r⟩, hb, he⟩ := Option.map_eq_some_iff.1 h
    cases he
    have := ih hb
    simp only [List.length_cons]
    omega

/-- What stays open when a text ends too early, and the text from there on. -/
structure Unclosed where
  delimiter : Delimiter
  opening : List Char
  deriving DecidableEq, Repr

/-- Splits off what is left of a group whose opening parenthesis has been read, its closing
parenthesis included; `depth` counts the groups open inside it. Strings inside are read
whole. Without a closing parenthesis the answer is the string that stays open, if any. -/
def spanGroup (depth : Nat) (text : List Char) :
    Except (Option Unclosed) (List Char × List Char) :=
  match text with
  | [] => .error none
  | c :: tail =>
    if isQuote c then
      match h : spanQuoted c tail with
      | none => .error (some ⟨.quote, c :: tail⟩)
      | some (body, rest) =>
        have : rest.length < tail.length := spanQuoted_length_lt h
        (spanGroup depth rest).map fun (group, rest) => (c :: (body ++ group), rest)
    else if c = '(' then
      (spanGroup (depth + 1) tail).map fun (group, rest) => (c :: group, rest)
    else if c = ')' then
      match depth with
      | 0 => .ok ([c], tail)
      | depth + 1 => (spanGroup depth tail).map fun (group, rest) => (c :: group, rest)
    else
      (spanGroup depth tail).map fun (group, rest) => (c :: group, rest)
termination_by text.length

/-- A mapped result that is a success was one before. -/
theorem exists_of_map_ok {ε α β : Type} {f : α → β} {result : Except ε α} {b : β}
    (h : result.map f = .ok b) : ∃ a, result = .ok a ∧ f a = b := by
  cases result with
  | error => simp [Except.map] at h
  | ok a => exact ⟨a, rfl, by simpa [Except.map] using h⟩

/-- The group with its closing bracket and the rest make up the text. -/
theorem spanGroup_append {depth : Nat} {text group rest : List Char}
    (h : spanGroup depth text = .ok (group, rest)) : group ++ rest = text := by
  fun_induction spanGroup depth text generalizing group with
  | case1 => simp at h
  | case2 => simp at h
  | case3 depth c tail _ body after hb _ ih =>
    obtain ⟨⟨g, r⟩, hg, he⟩ := exists_of_map_ok h
    cases he
    simp [ih hg, spanQuoted_append hb]
  | case4 depth tail _ ih =>
    obtain ⟨⟨g, r⟩, hg, he⟩ := exists_of_map_ok h
    cases he
    simp [ih hg]
  | case5 => grind
  | case6 tail _ _ depth ih =>
    obtain ⟨⟨g, r⟩, hg, he⟩ := exists_of_map_ok h
    cases he
    simp [ih hg]
  | case7 depth c tail _ _ _ ih =>
    obtain ⟨⟨g, r⟩, hg, he⟩ := exists_of_map_ok h
    cases he
    simp [ih hg]

/-- What reading one token off the start of a text comes to. -/
inductive Scan where
  /-- The text was empty. -/
  | finished
  /-- The token, the text it was read from, and what follows. -/
  | token (token : Token) (lexeme rest : List Char)
  | unclosed (unclosed : Unclosed)
  deriving DecidableEq, Repr

/-- Reads the token at the start of a text. -/
def scan : List Char → Scan
  | [] => .finished
  | c :: rest =>
    if startsGap (c :: rest) then
      let (lexeme, rest) := spanGap false (c :: rest)
      .token .gap lexeme rest
    else if c = ':' then
      .token .colon [c] rest
    else if c = ';' then
      .token .semicolon [c] rest
    else if isQuote c then
      match spanQuoted c rest with
      | some (body, rest) => .token (.quoted (c :: body)) (c :: body) rest
      | none => .unclosed ⟨.quote, c :: rest⟩
    else if c = '(' then
      match spanGroup 0 rest with
      | .ok (body, rest) => .token (.group (c :: body)) (c :: body) rest
      | .error inner => .unclosed (inner.getD ⟨.parenthesis, c :: rest⟩)
    else
      let (lexeme, rest) := spanWord (c :: rest)
      .token (.word lexeme) lexeme rest

/-- A text that starts with a gap has a gap of at least one character. -/
theorem spanGap_ne_nil {text : List Char} (h : startsGap text = true) :
    (spanGap false text).1 ≠ [] := by
  fun_cases startsGap text <;> simp_all [startsGap, spanGap]

/-- A text that starts with no gap and no separator has a word of at least one character. -/
theorem spanWord_ne_nil {text : List Char} (h : endsWord text = false) :
    (spanWord text).1 ≠ [] := by
  fun_cases endsWord text <;> simp_all [endsWord, spanWord]

/-- The lexeme of a token and the rest are the text that was read. -/
theorem scan_append {text lexeme rest : List Char} {token : Token}
    (h : scan text = .token token lexeme rest) : lexeme ++ rest = text := by
  fun_cases scan text <;>
    grind [scan, spanGap_append, spanWord_append, spanQuoted_append, spanGroup_append]

/-- The lexeme of a token is never empty. -/
theorem scan_lexeme_ne_nil {text lexeme rest : List Char} {token : Token}
    (h : scan text = .token token lexeme rest) : lexeme ≠ [] := by
  fun_cases scan text <;> grind [scan, spanGap_ne_nil, spanWord_ne_nil, endsWord]

/-- Reading a token leaves a shorter text. -/
theorem length_lt_of_scan {text lexeme rest : List Char} {token : Token}
    (h : scan text = .token token lexeme rest) : rest.length < text.length := by
  have := scan_append h
  have := List.length_pos_iff.2 (scan_lexeme_ne_nil h)
  simp only [← scan_append h, List.length_append]
  omega

end Lexeme

end StyleForest
