import StyleForest.Proofs.Grammar
import StyleForest.Proofs.LowerCase

/-!
# Readable declarations

What is known of the property and the value of a declaration that was read: each is the text of
tokens that can be written down and read back, a property is one run of them in lower case
(`IsName`), and a value is a run without blanks at its ends (`IsValue`). Tokens that stand around
a colon in this way are read as the declaration again (`declaration?_of_isName`).
-/

namespace StyleForest

open Lexeme

namespace Lexeme

private theorem not_isBlank_of_mem_spanWord {text : List Char} {c : Char}
    (h : c ∈ (spanWord text).1) :
    Text.isBlank c = false := by
  fun_induction spanWord text with
  | case1 => cases h
  | case2 => cases h
  | case3 d rest hgo word tail hword ih =>
    rw [hword] at ih
    rcases List.mem_cons.1 h with rfl | hmem
    · rw [← Bool.not_eq_true]
      exact fun hblank => hgo (endsWord_cons_iff.2 (Or.inr (startsGap_cons_iff.2 (Or.inl hblank))))
    · exact ih hmem

private theorem getLast?_of_spanQuoted {quote : Char} {text body rest : List Char}
    (h : spanQuoted quote text = some (body, rest)) : body.getLast? = some quote := by
  refine spanQuoted_induction (motive := fun _ body => body.getLast? = some quote) ?_ rfl ?_ h
  · intro c _ body ih
    simp [List.getLast?_cons, ih]
  · intro c _ body _ _ ih
    simp [List.getLast?_cons, ih]

private theorem getLast?_of_spanGroup {depth : Nat} {text group rest : List Char}
    (h : spanGroup depth text = .ok (group, rest)) : group.getLast? = some ')' := by
  refine spanGroup_induction (motive := fun _ _ group => group.getLast? = some ')')
    ?_ ?_ rfl ?_ ?_ h
  · intro _ c _ body _ group _ _ ih
    simp [List.getLast?_cons, List.getLast?_append, ih]
  · intro _ _ group ih
    simp [List.getLast?_cons, ih]
  · intro _ _ group ih
    simp [List.getLast?_cons, ih]
  · intro _ c _ group _ _ _ ih
    simp [List.getLast?_cons, ih]

end Lexeme

namespace Token

private theorem text_ne_nil {token : Token} (h : token.WellFormed) : token.text ≠ [] := by
  cases token with
  | word text => exact h.1
  | quoted text =>
    obtain ⟨quote, body, rfl, _⟩ := h
    exact List.cons_ne_nil _ _
  | group text =>
    obtain ⟨body, rfl, _⟩ := h
    exact List.cons_ne_nil _ _
  | gap => exact List.cons_ne_nil _ _
  | colon => exact List.cons_ne_nil _ _
  | semicolon => exact List.cons_ne_nil _ _

/-- A token that is no gap has no blank at its ends. -/
theorem WellFormed.trimmed {token : Token} (h : token.WellFormed) (hgap : token ≠ .gap) :
    Text.Trimmed token.text := by
  cases token with
  | word text =>
    have hplain (c : Char) (hmem : c ∈ text) : Text.isBlank c = false :=
      not_isBlank_of_mem_spanWord (by rw [h.2]; exact hmem)
    exact ⟨fun c hc => hplain c (List.mem_of_head? hc),
      fun c hc => hplain c (List.mem_of_getLast? hc)⟩
  | quoted text =>
    obtain ⟨quote, body, rfl, hquote, hspan⟩ := h
    have hlast : (quote :: body).getLast? = some quote := by
      rw [List.getLast?_cons, getLast?_of_spanQuoted hspan, Option.getD_some]
    simp only [Text.Trimmed, text, hlast, List.head?_cons, Option.mem_some_iff, forall_eq',
      isBlank_of_isQuote hquote, and_self]
  | group text =>
    obtain ⟨body, rfl, hspan⟩ := h
    have hlast : ('(' :: body).getLast? = some ')' := by
      rw [List.getLast?_cons, getLast?_of_spanGroup hspan, Option.getD_some]
    simp only [Text.Trimmed, text, hlast, List.head?_cons, Option.mem_some_iff, forall_eq']
    decide
  | gap => exact absurd rfl hgap
  | colon => simp [Text.Trimmed, text, Text.isBlank, Text.blankRanges]
  | semicolon => simp [Text.Trimmed, text, Text.isBlank, Text.blankRanges]

end Token

/-- The tokens neither begin nor end with a gap. -/
def Solid (tokens : List Token) : Prop :=
  tokens.head? ≠ some .gap ∧ tokens.getLast? ≠ some .gap

private theorem isBlank_of_mem_gaps {tokens : List Token} (h : isBlankPiece tokens = true)
    {c : Char} (hmem : c ∈ tokens.flatMap Token.text) : Text.isBlank c = true := by
  obtain ⟨token, htoken, hc⟩ := List.mem_flatMap.1 hmem
  rw [isBlankPiece_iff.1 h token htoken, Token.text, List.mem_singleton] at hc
  rw [hc]
  decide

/-- All tokens are gaps around tokens that neither begin nor end with one. -/
theorem exists_solid (tokens : List Token) :
    ∃ before core after, tokens = before ++ core ++ after ∧ isBlankPiece before = true ∧
      isBlankPiece after = true ∧ Solid core := by
  simp only [isBlankPiece_iff]
  induction tokens with
  | nil => exact ⟨[], [], [], rfl, by simp, by simp, by simp [Solid]⟩
  | cons token rest ih =>
    obtain ⟨before, core, after, rfl, hbefore, hafter, hsolid⟩ := ih
    by_cases hgap : token = .gap
    · exact ⟨token :: before, core, after, rfl, List.forall_mem_cons.2 ⟨hgap, hbefore⟩, hafter,
        hsolid⟩
    · by_cases hcore : core = []
      · refine ⟨[], [token], before ++ after, by simp [hcore], by simp, ?_, by simp [Solid, hgap]⟩
        exact List.forall_mem_append.2 ⟨hbefore, hafter⟩
      · refine ⟨[], token :: (before ++ core), after, by simp, by simp, hafter, by simp [hgap], ?_⟩
        rw [List.getLast?_cons, List.getLast?_append_of_ne_nil before hcore,
          List.getLast?_eq_some_getLast hcore]
        have hlast := hsolid.2
        rwa [List.getLast?_eq_some_getLast hcore] at hlast

/-- Tokens that begin and end with no gap spell a text without blanks around it. -/
theorem trimmed_of_solid {tokens : List Token} (h : ∀ token ∈ tokens, token.WellFormed)
    (hsolid : Solid tokens) : Text.Trimmed (tokens.flatMap Token.text) := by
  constructor
  · intro c hc
    cases tokens with
    | nil => cases hc
    | cons first rest =>
      have hfirst : first.WellFormed := h first List.mem_cons_self
      rw [List.flatMap_cons, List.head?_append_of_ne_nil _ (Token.text_ne_nil hfirst)] at hc
      exact (hfirst.trimmed fun hgap => hsolid.1 (congrArg some hgap)).1 c hc
  · intro c hc
    rcases List.eq_nil_or_concat tokens with rfl | ⟨before, last, rfl⟩
    · cases hc
    · rw [List.concat_eq_append] at h hsolid hc
      have hlast : last.WellFormed := h last (by simp)
      rw [List.flatMap_append, List.flatMap_singleton,
        List.getLast?_append_of_ne_nil _ (Token.text_ne_nil hlast)] at hc
      refine (hlast.trimmed fun hgap => hsolid.2 ?_).2 c hc
      rw [List.getLast?_concat, hgap]

/-- Trimming drops exactly the gaps around tokens. -/
theorem trimmedText_append {before core after : List Token}
    (hcore : ∀ token ∈ core, token.WellFormed) (hsolid : Solid core)
    (hbefore : isBlankPiece before = true) (hafter : isBlankPiece after = true) :
    trimmedText (before ++ core ++ after) = core.flatMap Token.text := by
  rw [trimmedText, List.flatMap_append, List.flatMap_append]
  exact (trimmed_of_solid hcore hsolid).trim_append (fun c => isBlank_of_mem_gaps hbefore)
    (fun c => isBlank_of_mem_gaps hafter)

/-- The tokens spell a property as it is kept: in lower case, and without blanks. -/
structure IsName (tokens : List Token) (name : String) : Prop where
  legible : Legible tokens
  text_eq : tokens.flatMap Token.text = name.toList
  ne_nil : tokens ≠ []
  not_blank : ∀ c ∈ name.toList, Text.isBlank c = false
  not_colon : Token.colon ∉ tokens
  not_semicolon : Token.semicolon ∉ tokens
  lower_eq : Text.lower name = name

/-- The tokens spell a value as it is kept: without blanks at its ends. -/
structure IsValue (tokens : List Token) (value : String) : Prop where
  legible : Legible tokens
  text_eq : tokens.flatMap Token.text = value.toList
  ne_nil : tokens ≠ []
  not_semicolon : Token.semicolon ∉ tokens
  solid : Solid tokens

/-- A name has no gaps. -/
theorem IsName.not_gap {tokens : List Token} {name : String} (h : IsName tokens name) :
    Token.gap ∉ tokens := by
  intro hmem
  have hspace : ' ' ∈ name.toList := by
    rw [← h.text_eq, List.mem_flatMap]
    exact ⟨.gap, hmem, List.mem_singleton_self _⟩
  have hplain := h.not_blank ' ' hspace
  revert hplain
  decide

/-- A name neither begins nor ends with a gap. -/
theorem IsName.solid {tokens : List Token} {name : String} (h : IsName tokens name) :
    Solid tokens :=
  ⟨fun hhead => h.not_gap (List.mem_of_head? hhead),
    fun hlast => h.not_gap (List.mem_of_getLast? hlast)⟩

/-- The text of tokens that are written down is empty only without tokens. -/
theorem Lexeme.Legible.flatMap_text_ne_nil {tokens : List Token} (h : Legible tokens)
    (hne : tokens ≠ []) : tokens.flatMap Token.text ≠ [] := by
  obtain ⟨token, rest, rfl⟩ := List.exists_cons_of_ne_nil hne
  rw [List.flatMap_cons]
  exact List.append_ne_nil_of_left_ne_nil
    (Token.text_ne_nil (h.wellFormed token List.mem_cons_self)) _

/-- Around the first colon stand a property and a value. -/
theorem declaration?_of_isName {names after : List Token} {name : String}
    (hname : IsName names name) {before : List Token} (hbefore : isBlankPiece before = true)
    (hvalue : trimmedText after ≠ []) :
    declaration? (before ++ names ++ .colon :: after) =
      some { property := name, value := String.ofList (trimmedText after) } := by
  have hcolon : Token.colon ∉ before ++ names := by
    intro hmem
    rcases List.mem_append.1 hmem with hgap | hmem
    · cases isBlankPiece_iff.1 hbefore _ hgap
    · exact hname.not_colon hmem
  have htrim : trimmedText (before ++ names) = name.toList := by
    have hafter : isBlankPiece [] = true := rfl
    have happend := trimmedText_append hname.legible.wellFormed hname.solid hbefore hafter
    rwa [List.append_nil, hname.text_eq] at happend
  have hne : name.toList ≠ [] := hname.text_eq ▸ hname.legible.flatMap_text_ne_nil hname.ne_nil
  rw [declaration?_eq_some_iff]
  refine ⟨before ++ names, after, rfl, hcolon, ?_⟩
  rw [htrim, String.ofList_toList, hname.lower_eq]
  exact ⟨hne, hname.not_blank, hvalue, rfl⟩

/-- A property, a colon and a value with gaps between are the declaration. -/
theorem declaration?_of_isValue {names values : List Token} {name value : String}
    (hname : IsName names name) (hvalue : IsValue values value)
    {before between after : List Token} (hbefore : isBlankPiece before = true)
    (hbetween : isBlankPiece between = true) (hafter : isBlankPiece after = true) :
    declaration? (before ++ names ++ .colon :: (between ++ values ++ after)) =
      some { property := name, value := value } := by
  have htrim : trimmedText (between ++ values ++ after) = value.toList := by
    rw [trimmedText_append hvalue.legible.wellFormed hvalue.solid hbetween hafter, hvalue.text_eq]
  have hne : value.toList ≠ [] :=
    hvalue.text_eq ▸ hvalue.legible.flatMap_text_ne_nil hvalue.ne_nil
  rw [declaration?_of_isName hname hbefore (by rwa [htrim]), htrim, String.ofList_toList]

/-- The property and the value of the declaration can be written down and read back. -/
structure Declaration.Readable (declaration : Declaration) : Prop where
  name : ∃ names, IsName names declaration.property
  value : ∃ values, IsValue values declaration.value

/-- The tokens before the colon spell a property, in whatever case they are written. -/
theorem exists_isName {tokens : List Token} (hlegible : Legible tokens)
    (hcolon : Token.colon ∉ tokens) (hsemicolon : Token.semicolon ∉ tokens)
    (hne : trimmedText tokens ≠ [])
    (hblank : ∀ c ∈ trimmedText tokens, Text.isBlank c = false) :
    ∃ names, IsName names (Text.lower (String.ofList (trimmedText tokens))) := by
  obtain ⟨before, core, after, rfl, hbefore, hafter, hsolid⟩ := exists_solid tokens
  have hcore : Legible core := hlegible.of_part (List.infix_append before core after)
  have htrim := trimmedText_append hcore.wellFormed hsolid hbefore hafter
  have hmem {token : Token} (h : token ∈ core) : token ∈ before ++ core ++ after := by
    simp [h]
  rw [htrim] at hne hblank ⊢
  have htext : (Text.lower (String.ofList (core.flatMap Token.text))).toList =
      lowerText (core.flatMap Token.text) := by
    rw [Text.lower, String.toList_ofList, String.toList_ofList, lowerText]
  refine ⟨core.map Token.lower, hcore.lower, ?_, ?_, ?_, ?_, ?_, Text.lower_lower _⟩
  · rw [Token.flatMap_text_lower, htext]
  · rintro hnil
    rw [List.map_eq_nil_iff.1 hnil] at hne
    exact hne rfl
  · intro c hc
    rw [htext, lowerText] at hc
    obtain ⟨d, hd, rfl⟩ := List.mem_map.1 hc
    rw [Text.isBlank_toLower, hblank d hd]
  · intro hin
    obtain ⟨token, htoken, heq⟩ := List.mem_map.1 hin
    exact hcolon (hmem ((Token.lower_eq_iff (by simp)).1 heq ▸ htoken))
  · intro hin
    obtain ⟨token, htoken, heq⟩ := List.mem_map.1 hin
    exact hsemicolon (hmem ((Token.lower_eq_iff (by simp)).1 heq ▸ htoken))

/-- The tokens after the colon spell a value. -/
theorem exists_isValue {tokens : List Token} (hlegible : Legible tokens)
    (hsemicolon : Token.semicolon ∉ tokens) (hne : trimmedText tokens ≠ []) :
    ∃ values, IsValue values (String.ofList (trimmedText tokens)) := by
  obtain ⟨before, core, after, rfl, hbefore, hafter, hsolid⟩ := exists_solid tokens
  have hcore : Legible core := hlegible.of_part (List.infix_append before core after)
  rw [trimmedText_append hcore.wellFormed hsolid hbefore hafter] at hne ⊢
  refine ⟨core, hcore, by rw [String.toList_ofList], ?_, fun hmem => hsemicolon (by simp [hmem]),
    hsolid⟩
  rintro rfl
  exact hne rfl

/-- What tokens without a semicolon spell is readable. -/
theorem readable_of_declaration? {tokens : List Token} {declaration : Declaration}
    (h : declaration? tokens = some declaration) (hlegible : Legible tokens)
    (hplain : Token.semicolon ∉ tokens) :
    declaration.Readable ∧ declaration.replaced = none := by
  obtain ⟨names, values, rfl, hcolon, hname, hblank, hvalue, rfl⟩ :=
    declaration?_eq_some_iff.1 h
  have hfront : names <:+: names ++ .colon :: values := (List.prefix_append names _).isInfix
  have hback : values <:+: names ++ .colon :: values :=
    ((List.suffix_cons .colon values).trans (List.suffix_append names _)).isInfix
  exact ⟨⟨exists_isName (hlegible.of_part hfront) hcolon
      (fun hmem => hplain (hfront.subset hmem)) hname hblank,
    exists_isValue (hlegible.of_part hback) (fun hmem => hplain (hback.subset hmem)) hvalue⟩, rfl⟩

/-- Every declaration that is read is readable and has replaced nothing. -/
theorem Block.readable_of_parse {text : String} {block : Block} (h : Block.parse text = .ok block)
    {declaration : Declaration} (hmem : declaration ∈ block.declarations) :
    declaration.Readable ∧ declaration.replaced = none := by
  obtain ⟨tokens, htokens, hmap, _⟩ := Block.parse_eq_ok_iff.1 h
  have hsome : some declaration ∈ (statements tokens).map declaration? := by
    rw [hmap]
    exact List.mem_map_of_mem hmem
  obtain ⟨piece, hpiece, hspells⟩ := List.mem_map.1 hsome
  obtain ⟨hpart, hplain⟩ := infix_of_mem_statements hpiece
  exact readable_of_declaration? hspells ((legible_of_tokens? htokens).of_part hpart) hplain

end StyleForest
