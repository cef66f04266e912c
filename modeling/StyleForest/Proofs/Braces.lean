import StyleForest.Proofs.Provenance

/-!
# Braces outside strings, groups and comments

Strings, groups and comments are read whole, so the braces that structure a text are those of its
words. A text contributes braces when it puts them in front of those of whatever follows it
(`Contributes`); contributions are joined as the texts are, and names, blanks, groups and strings
contribute nothing. A written declaration contributes the braces of its property and of its value
(`Declaration.Readable.contributes`).
-/

namespace StyleForest

open Lexeme

/-- The character opens or closes a block. -/
def isBrace (c : Char) : Bool :=
  c == '\x7b' || c == '\x7d'

/-- The braces of a token; those inside a string or a group do not count. -/
def Token.braces : Token → List Char
  | .word text => text.filter isBrace
  | _ => []

/-- The braces of a text outside its strings, groups and comments, if all of these are closed. -/
def braces? (text : List Char) : Option (List Char) :=
  (tokens? text).map fun tokens => tokens.flatMap Token.braces

/-- The character stands in a word whatever surrounds it. -/
def isWordChar (c : Char) : Bool :=
  !Text.isBlank c && c != '/' && c != ':' && c != ';' && c != '(' && !isQuote c

/-- The character neither opens nor closes a string or a group. -/
def isGroupChar (c : Char) : Bool :=
  !isQuote c && c != '(' && c != ')'

/-- A character of a name: an ASCII letter or digit, or one of `-`, `_`, `.` and `:`. -/
def isNameChar (c : Char) : Bool :=
  c.isAlphanum || c == '-' || c == '_' || c == '.' || c == ':'

/-- The text puts these braces in front of those of whatever follows it. -/
def Contributes (text braces : List Char) : Prop :=
  ∀ rest, braces? (text ++ rest) = (braces? rest).map (braces ++ ·)

@[simp] theorem braces?_nil : braces? [] = some [] := by
  rw [braces?, tokens?_nil]
  rfl

/-- The braces of a text are those of its first token, followed by those of the rest. -/
theorem braces?_of_scan {text lexeme rest : List Char} {token : Token}
    (h : scan text = .token token lexeme rest) :
    braces? text = (braces? rest).map (token.braces ++ ·) := by
  rw [braces?, tokens?_of_scan h, Option.map_map, braces?, Option.map_map]
  rfl

/-- A text that is spelled adds the braces of its tokens. -/
theorem braces?_append_of_spells {text rest : List Char} {tokens : List Token}
    (h : Spells text tokens) (hstop : ∀ token ∈ tokens.getLast?, token.StopsBefore rest) :
    braces? (text ++ rest) = (braces? rest).map (tokens.flatMap Token.braces ++ ·) := by
  rw [braces?, h.tokens?_append hstop, Option.map_map, braces?, Option.map_map]
  simp only [Function.comp_def, List.flatMap_append]

/-- Blanks and comments at the start add no braces. -/
theorem braces?_skipGap (text : List Char) : braces? text = braces? (spanGap false text).2 := by
  cases hstart : startsGap text with
  | false => rw [spanGap_of_not_startsGap hstart]
  | true =>
    rw [braces?_of_scan (scan_gap hstart)]
    simp [Token.braces]

private theorem spanWord_cons {c : Char} {rest : List Char} (h : endsWord (c :: rest) = false) :
    spanWord (c :: rest) = (c :: (spanWord rest).1, (spanWord rest).2) := by
  simp [spanWord, h]

/-- A character of a word adds itself if it is a brace. -/
theorem braces?_cons_of_word {c : Char} {rest : List Char} (h : endsWord (c :: rest) = false) :
    braces? (c :: rest) = (braces? rest).map ([c].filter isBrace ++ ·) := by
  rw [braces?_of_scan (scan_word h), spanWord_cons h]
  cases hrest : endsWord rest with
  | true => simp [spanWord_of_endsWord hrest, Token.braces]
  | false =>
    rw [braces?_of_scan (scan_word hrest), Option.map_map]
    congr 1
    funext braces
    rw [Function.comp_apply, ← List.append_assoc]
    congr 1
    rw [Token.braces, Token.braces, ← List.filter_append, List.singleton_append]

namespace Contributes

variable {text more braces others : List Char}

/-- The empty text contributes nothing. -/
theorem nil : Contributes [] [] := by
  intro rest
  simp

/-- One text after another contributes the braces of both. -/
theorem append (h : Contributes text braces) (hmore : Contributes more others) :
    Contributes (text ++ more) (braces ++ others) := by
  intro rest
  rw [List.append_assoc, h, hmore, Option.map_map]
  simp [Function.comp_def]

/-- Texts that contribute one after the other contribute together. -/
theorem flatMap {α : Type} {list : List α} {text braces : α → List Char}
    (h : ∀ a ∈ list, Contributes (text a) (braces a)) :
    Contributes (list.flatMap text) (list.flatMap braces) := by
  induction list with
  | nil => exact nil
  | cons a rest ih =>
    obtain ⟨hfirst, hrest⟩ := List.forall_mem_cons.1 h
    exact hfirst.append (ih hrest)

/-- What contributes contributes its braces when nothing follows. -/
theorem braces?_eq (h : Contributes text braces) : braces? text = some braces := by
  have hend := h []
  rwa [List.append_nil, braces?_nil, Option.map_some, List.append_nil] at hend

/-- A character of a word contributes itself if it is a brace. -/
theorem letter {c : Char} (h : isWordChar c = true) : Contributes [c] ([c].filter isBrace) := by
  intro rest
  refine braces?_cons_of_word ?_
  rw [← Bool.not_eq_true, endsWord_cons_iff, startsGap_cons_iff]
  simp only [isWordChar, isQuote, Bool.and_eq_true, Bool.not_eq_true', Bool.or_eq_false_iff,
    beq_eq_false_iff_ne, bne_iff_ne] at h
  simp [h]

/-- The letters of a word contribute the braces among them. -/
theorem word (h : text.all isWordChar = true) : Contributes text (text.filter isBrace) := by
  have hletters : Contributes (text.flatMap fun c => [c])
      (text.flatMap fun c => [c].filter isBrace) :=
    flatMap fun c hmem => letter (List.all_eq_true.1 h c hmem)
  rwa [List.flatMap_singleton', ← List.filter_flatMap, List.flatMap_singleton'] at hletters

/-- A colon contributes nothing. -/
theorem colon : Contributes [':'] [] := fun rest => by
  rw [List.singleton_append, braces?_of_scan (scan_colon rest)]
  rfl

/-- A semicolon contributes nothing. -/
theorem semicolon : Contributes [';'] [] := fun rest => by
  rw [List.singleton_append, braces?_of_scan (scan_semicolon rest)]
  rfl

/-- Blanks contribute nothing. -/
theorem blanks (h : ∀ c ∈ text, Text.isBlank c = true) : Contributes text [] := fun rest => by
  rw [braces?_skipGap, spanGap_blanks h, ← braces?_skipGap]
  simp

/-- A blank contributes nothing. -/
theorem blank {c : Char} (h : Text.isBlank c = true) : Contributes [c] [] :=
  blanks (List.forall_mem_singleton.2 h)

end Contributes

namespace Lexeme

private theorem spanQuoted_plain {quote : Char} (hquote : quote ≠ '\\') {body : List Char}
    (h : ∀ c ∈ body, c ≠ quote ∧ c ≠ '\\') (rest : List Char) :
    spanQuoted quote (body ++ quote :: rest) = some (body ++ [quote], rest) := by
  induction body with
  | nil => simp [spanQuoted, hquote]
  | cons c body ih =>
    obtain ⟨⟨hother, hbackslash⟩, hbody⟩ := List.forall_mem_cons.1 h
    simp [spanQuoted, hbackslash, hother, ih hbody]

private theorem spanGroup_plain {body : List Char} (h : body.all isGroupChar = true)
    (rest : List Char) :
    spanGroup 0 (body ++ ')' :: rest) = .ok (body ++ [')'], rest) := by
  induction body with
  | nil => exact spanGroup_last rest
  | cons c body ih =>
    rw [List.all_cons, Bool.and_eq_true] at h
    obtain ⟨⟨hquote, hopen⟩, hclose⟩ : (¬isQuote c = true ∧ c ≠ '(') ∧ c ≠ ')' := by
      simpa [isGroupChar] using h.1
    rw [List.cons_append, spanGroup_other hquote hopen hclose, ih h.2]
    rfl

end Lexeme

/-- A character of names differs from every character that is none. -/
theorem ne_of_isNameChar {c other : Char} (h : isNameChar c = true)
    (hother : isNameChar other = false) : c ≠ other := by
  rintro rfl
  rw [h] at hother
  cases hother

private theorem isBlank_of_isNameChar {c : Char} (h : isNameChar c = true) :
    Text.isBlank c = false := by
  simp only [isNameChar, Bool.or_eq_true, beq_iff_eq] at h
  rcases h with (((h | rfl) | rfl) | rfl) | rfl
  · exact Text.isBlank_of_isAlphanum h
  · decide
  · decide
  · decide
  · decide

namespace Contributes

variable {text braces : List Char}

/-- A string without quotes and backslashes inside contributes nothing. -/
theorem quoted {body : List Char} (h : ∀ c ∈ body, c ≠ '"' ∧ c ≠ '\\') :
    Contributes ('"' :: (body ++ ['"'])) [] := by
  intro rest
  have hbody := spanQuoted_plain (by decide) h rest
  rw [List.cons_append, List.append_assoc, List.singleton_append,
    braces?_of_scan (scan_quoted rfl hbody)]
  rfl

/-- A group of plain characters contributes nothing. -/
theorem group {body : List Char} (h : body.all isGroupChar = true) :
    Contributes ('(' :: (body ++ [')'])) [] := by
  intro rest
  rw [List.cons_append, List.append_assoc, List.singleton_append,
    braces?_of_scan (scan_group (spanGroup_plain h rest))]
  rfl

/-- A character of a name contributes nothing. -/
theorem nameChar {c : Char} (h : isNameChar c = true) : Contributes [c] [] := by
  by_cases hcolon : c = ':'
  · rw [hcolon]
    exact colon
  · have hword : isWordChar c = true := by
      simp (disch := decide) [isWordChar, isQuote, isBlank_of_isNameChar h, hcolon,
        ne_of_isNameChar h]
    have hbrace : isBrace c = false := by
      simp (disch := decide) [isBrace, ne_of_isNameChar h]
    have hletter := letter hword
    rwa [List.filter_cons_of_neg (by simp [hbrace])] at hletter

/-- A plain name contributes nothing. -/
theorem name (h : text.all isNameChar = true) : Contributes text [] := by
  have hletters : Contributes (text.flatMap fun c => [c]) (text.flatMap fun _ => []) :=
    flatMap fun c hmem => nameChar (List.all_eq_true.1 h c hmem)
  have hnone : (text.flatMap fun _ => ([] : List Char)) = [] := by simp
  rwa [hnone, List.flatMap_singleton'] at hletters

end Contributes

/-- Tokens without gaps at their ends add their braces in front of what ends words. -/
theorem braces?_append_of_solid {tokens : List Token} (h : Legible tokens) (hsolid : Solid tokens)
    {rest : List Char} (hend : endsWord rest = true) :
    braces? (tokens.flatMap Token.text ++ rest) =
      (braces? rest).map (tokens.flatMap Token.braces ++ ·) := by
  refine braces?_append_of_spells h.spells fun token htoken => ?_
  cases token with
  | word text => exact hend
  | gap => exact absurd htoken hsolid.2
  | _ => exact trivial

/-- The braces in the words of the property and of the value. -/
def Declaration.braces (declaration : Declaration) : List Char :=
  (braces? declaration.property.toList).getD [] ++ (braces? declaration.value.toList).getD []

/-- A comment around a replaced value contributes nothing unless the value ends it. -/
theorem Declaration.contributes_comment {declaration : Declaration}
    (h : ∀ first, declaration.replaced = some first → NoClosing first.toList) :
    Contributes declaration.comment [] := by
  unfold comment
  cases hreplaced : declaration.replaced with
  | none => exact .nil
  | some first =>
    intro rest
    have hclosed : (spanGap true (") */".toList ++ rest)).2 = (spanGap false rest).2 := by
      simp [spanGap]
    have hjoint :
        ¬(first.toList.getLast? = some '*' ∧ (") */".toList ++ rest).head? = some '/') := by
      simp
    dsimp only
    rw [braces?_skipGap, List.cons_append, List.cons_append, List.cons_append, List.append_assoc,
      spanGap_opening, List.append_assoc, spanGap_of_noClosing (h first hreplaced) hjoint, hclosed,
      ← braces?_skipGap]
    simp

/-- A written declaration contributes the braces of its property and its value. -/
theorem Declaration.Readable.contributes {declaration : Declaration} (h : declaration.Readable)
    (hclosing : ∀ first, declaration.replaced = some first → NoClosing first.toList) :
    Contributes declaration.render.toList declaration.braces := by
  obtain ⟨⟨names, hname⟩, values, hvalue⟩ := h
  have hnameBraces : braces? declaration.property.toList = some (names.flatMap Token.braces) := by
    rw [braces?, ← hname.text_eq, hname.legible.spells.tokens?_eq, Option.map_some]
  have hvalueBraces : braces? declaration.value.toList = some (values.flatMap Token.braces) := by
    rw [braces?, ← hvalue.text_eq, hvalue.legible.spells.tokens?_eq, Option.map_some]
  have htail : Contributes (declaration.comment ++ [';']) [] :=
    (declaration.contributes_comment hclosing).append .semicolon
  have hend (rest : List Char) : endsWord (declaration.comment ++ [';'] ++ rest) = true := by
    unfold Declaration.comment
    cases declaration.replaced with
    | none => rfl
    | some first => exact endsWord_cons_iff.2 (Or.inr (startsGap_cons_iff.2 (Or.inl (by decide))))
  have hblank : Contributes [' '] [] := .blank rfl
  intro rest
  have hrest : declaration.render.toList ++ rest = names.flatMap Token.text ++ ([':'] ++ ([' '] ++
      (values.flatMap Token.text ++ (declaration.comment ++ [';'] ++ rest)))) := by
    rw [declaration.toList_render, hname.text_eq, hvalue.text_eq]
    simp
  rw [hrest, braces?_append_of_solid hname.legible hname.solid rfl, Contributes.colon, hblank,
    braces?_append_of_solid hvalue.legible hvalue.solid (hend rest), htail, Declaration.braces,
    hnameBraces, hvalueBraces]
  simp [Function.comp_def]

end StyleForest
