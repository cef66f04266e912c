import StyleForest.Proofs.Gaps
import StyleForest.Proofs.RoundTrip

/-!
# Replaced values in comments

A merge keeps the first value of a declaration, and the written declaration shows it in a comment.
The value is written as it is, so the comment ends at the first `*/` in it. Reading the written
declaration gives its property and its present value exactly when nothing but blanks, comments and
semicolons follows that place (`Block.Composed.parse_render_iff`).
-/

namespace StyleForest

open Lexeme

namespace Block

/-- The block is read, and blocks that are read are merged into it. -/
inductive Composed : Block → Prop
  | parse {text : String} {block : Block} (h : Block.parse text = .ok block) : Composed block
  | merge {text : String} {block other : Block} (h : Composed block)
      (hother : Block.parse text = .ok other) : Composed (block.merge other)

/-- What holds of all declarations, and is kept when a value is replaced, holds after a merge. -/
theorem forall_mem_merge {P : Declaration → Prop}
    (hreplace : ∀ {old incoming : Declaration}, P old → P incoming →
      P (old.replaceValue incoming.value))
    {block other : Block} (hblock : ∀ declaration ∈ block.declarations, P declaration)
    (hother : ∀ declaration ∈ other.declarations, P declaration) :
    ∀ declaration ∈ (block.merge other).declarations, P declaration := by
  have habsorb {incoming : Declaration} (hincoming : P incoming) (declarations : List Declaration)
      (h : ∀ declaration ∈ declarations, P declaration) :
      ∀ declaration ∈ absorb incoming declarations, P declaration := by
    induction declarations with
    | nil => exact List.forall_mem_singleton.2 hincoming
    | cons first rest ih =>
      obtain ⟨hfirst, hrest⟩ := List.forall_mem_cons.1 h
      unfold absorb
      split
      · exact List.forall_mem_cons.2 ⟨hreplace hfirst hincoming, hrest⟩
      · exact List.forall_mem_cons.2 ⟨hfirst, ih hrest⟩
  obtain ⟨own⟩ := block
  obtain ⟨incoming⟩ := other
  simp only [merge]
  induction incoming generalizing own with
  | nil => exact hblock
  | cons first rest ih =>
    obtain ⟨hfirst, hrest⟩ := List.forall_mem_cons.1 hother
    exact ih _ (habsorb hfirst own hblock) hrest

/-- Every declaration of a composed block is readable. -/
theorem Composed.readable {block : Block} (h : block.Composed) :
    ∀ declaration ∈ block.declarations, declaration.Readable := by
  induction h with
  | parse h => exact fun _ hmem => (readable_of_parse h hmem).1
  | merge h hother ih =>
    exact forall_mem_merge (fun hold hincoming => ⟨hold.name, hincoming.value⟩) ih
      fun _ hmem => (readable_of_parse hother hmem).1

end Block

/-- What follows the comment around a replaced value in a written declaration. -/
def afterComment (first : String) : List Char :=
  (spanGap true (first.toList ++ ") */;".toList)).2

/-- The value stays in the comment, or adds nothing else than gaps and semicolons after it. -/
def Concealed (first : String) : Prop :=
  ∃ tokens, tokens? (afterComment first) = some tokens ∧
    ∀ token ∈ tokens, token = .gap ∨ token = .semicolon

/-- A value without an end of a comment stays in the comment. -/
theorem concealed_of_noClosing {first : String} (h : NoClosing first.toList) : Concealed first := by
  have hafter : afterComment first = [';'] := by
    rw [afterComment, spanGap_of_noClosing h (by simp)]
    rfl
  have hsemicolon : Legible [.semicolon] := legible_nil.cons trivial (by simp)
  exact ⟨[.semicolon], hafter ▸ hsemicolon.spells.tokens?_eq, by simp⟩

/-- A blank ends every token but a gap. -/
theorem Token.stopsBefore_blank {token : Token} (h : token ≠ .gap) {c : Char}
    (hc : Text.isBlank c = true) (rest : List Char) : token.StopsBefore (c :: rest) := by
  cases token with
  | word text => exact endsWord_cons_iff.2 (Or.inr (startsGap_cons_iff.2 (Or.inl hc)))
  | gap => exact absurd rfl h
  | _ => exact trivial

/-- In front of a replaced value a comment has been opened. -/
theorem spanGap_opening (rest : List Char) :
    (spanGap false (' ' :: '/' :: '*' :: (" (original value: ".toList ++ rest))).2 =
      (spanGap true rest).2 := by
  have hlabel : NoClosing " (original value: ".toList := noClosing_of_not_mem (by simp)
  have hblank : Text.isBlank ' ' = true := by decide
  have hopen (more : List Char) :
      (spanGap false (' ' :: '/' :: '*' :: more)).2 = (spanGap true more).2 := by
    simp [spanGap, hblank]
  rw [hopen, spanGap_of_noClosing hlabel (by simp)]

/-- The comment around a replaced value is a gap. -/
theorem tokens?_comment {declaration : Declaration} {first : String}
    (h : declaration.replaced = some first) :
    tokens? (declaration.comment ++ [';']) = (tokens? (afterComment first)).map (.gap :: ·) := by
  have hcomment : declaration.comment ++ [';'] =
      ' ' :: '/' :: '*' :: (" (original value: ".toList ++ (first.toList ++ ") */;".toList)) := by
    rw [Declaration.comment, h]
    simp
  have hstart (rest : List Char) : startsGap (' ' :: rest) = true :=
    startsGap_cons_iff.2 (Or.inl (by decide))
  rw [hcomment, tokens?_of_scan (scan_gap (hstart _)), spanGap_opening, afterComment]

/-- The tokens of a written declaration with a comment: those of the property and the value, and
those after the comment. -/
theorem tokens?_render_of_replaced {declaration : Declaration} {first : String}
    (h : declaration.replaced = some first) {names values : List Token}
    (hname : IsName names declaration.property) (hvalue : IsValue values declaration.value) :
    tokens? declaration.render.toList = (tokens? (afterComment first)).map fun tokens =>
      names ++ .colon :: (.gap :: values ++ .gap :: tokens) := by
  have hpart : names ++ .colon :: .gap :: values <:+: written names values := by
    refine ⟨[], [.semicolon], ?_⟩
    simp [written]
  have hlegible : Legible (names ++ .colon :: .gap :: values) :=
    (legible_written hname hvalue).of_part hpart
  have hspells : Spells
      (declaration.property.toList ++ ':' :: ' ' :: declaration.value.toList)
      (names ++ .colon :: .gap :: values) := by
    have hflat := hlegible.spells
    rw [List.flatMap_append, List.flatMap_cons, List.flatMap_cons, hname.text_eq,
      hvalue.text_eq] at hflat
    exact hflat
  have hlast : (names ++ .colon :: .gap :: values).getLast? = values.getLast? := by
    have hsplit : names ++ .colon :: .gap :: values = names ++ [.colon, .gap] ++ values := by simp
    rw [hsplit, List.getLast?_append_of_ne_nil _ hvalue.ne_nil]
  have hstop : ∀ token ∈ (names ++ .colon :: .gap :: values).getLast?,
      token.StopsBefore (declaration.comment ++ [';']) := by
    rw [hlast, Declaration.comment, h]
    intro token htoken
    exact Token.stopsBefore_blank (fun hgap => hvalue.solid.2 (hgap ▸ htoken)) (by decide) _
  have hsplit : declaration.render.toList =
      declaration.property.toList ++ ':' :: ' ' :: declaration.value.toList ++
        (declaration.comment ++ [';']) := by
    rw [declaration.toList_render]
    simp
  rw [hsplit, hspells.tokens?_append hstop, tokens?_comment h, Option.map_map]
  simp [Function.comp_def]

/-- The text of a value with a gap and other tokens after it, up to the last that is no gap. -/
private theorem trimmedText_commented {values before core after : List Token} {value : String}
    (hvalue : IsValue values value) (hcore : core ≠ []) (hsolid : Solid core)
    (hlegible : Legible (before ++ core ++ after)) (hafter : isBlankPiece after = true) :
    trimmedText (.gap :: values ++ .gap :: (before ++ core ++ after)) =
      value.toList ++ ' ' :: (before ++ core).flatMap Token.text := by
  have hgap : isBlankPiece [.gap] = true := rfl
  have hlong : Solid (values ++ .gap :: (before ++ core)) := by
    refine ⟨?_, ?_⟩
    · rw [List.head?_append_of_ne_nil _ hvalue.ne_nil]
      exact hvalue.solid.1
    · have hsplit : values ++ .gap :: (before ++ core) = values ++ .gap :: before ++ core := by
        simp
      rw [hsplit, List.getLast?_append_of_ne_nil _ hcore]
      exact hsolid.2
  have hwellFormed : ∀ token ∈ values ++ .gap :: (before ++ core), token.WellFormed := by
    simp only [List.forall_mem_append, List.forall_mem_cons]
    have hall := hlegible.wellFormed
    simp only [List.forall_mem_append] at hall
    exact ⟨hvalue.legible.wellFormed, trivial, hall.1⟩
  have htrim := trimmedText_append hwellFormed hlong hgap hafter
  rw [List.flatMap_append, List.flatMap_cons, hvalue.text_eq] at htrim
  simpa [Token.text] using htrim

/-- Tokens behind the value belong to it unless they are gaps. -/
theorem declaration?_commented_iff {names values tokens : List Token} {name value : String}
    (hname : IsName names name) (hvalue : IsValue values value) (hlegible : Legible tokens) :
    declaration? (names ++ .colon :: (.gap :: values ++ .gap :: tokens)) =
        some { property := name, value := value } ↔ isBlankPiece tokens = true := by
  have hnone : isBlankPiece [] = true := rfl
  have hgap : isBlankPiece [.gap] = true := rfl
  constructor
  · intro h
    obtain ⟨before, core, after, rfl, hbefore, hafter, hsolid⟩ := exists_solid tokens
    by_cases hcore : core = []
    · rw [hcore, List.append_nil]
      simp only [isBlankPiece_iff] at hbefore hafter ⊢
      exact List.forall_mem_append.2 ⟨hbefore, hafter⟩
    · -- The value would go on with a space and the tokens up to the last that is no gap.
      have htext := trimmedText_commented hvalue hcore hsolid hlegible hafter
      have hne : trimmedText (.gap :: values ++ .gap :: (before ++ core ++ after)) ≠ [] := by
        rw [htext]
        simp
      have hspelled := declaration?_of_isName hname hnone hne
      rw [List.nil_append, h, htext, Option.some.injEq, Declaration.mk.injEq] at hspelled
      have hlength := congrArg (fun text => text.toList.length) hspelled.2.1
      simp at hlength
  · intro hblank
    have htail : isBlankPiece (.gap :: tokens) = true := by
      simpa [isBlankPiece] using hblank
    exact declaration?_of_isValue hname hvalue hnone hgap htail

/-- A property and a value with a gap and other tokens after them spell the declaration without a
comment exactly when the other tokens are gaps and semicolons. -/
theorem statements_commented_iff {names values tokens : List Token} {name value : String}
    (hname : IsName names name) (hvalue : IsValue values value) (hlegible : Legible tokens) :
    (statements (names ++ .colon :: (.gap :: values ++ .gap :: tokens))).map declaration? =
        [some { property := name, value := value }] ↔
      ∀ token ∈ tokens, token = .gap ∨ token = .semicolon := by
  have hpiece {part : List Token} (hpart : Token.semicolon ∉ part) :
      statements (names ++ .colon :: (.gap :: values ++ .gap :: part)) =
        [names ++ .colon :: (.gap :: values ++ .gap :: part)] :=
    statements_of_piece (by simp [hname.not_semicolon, hvalue.not_semicolon, hpart])
      (by simp [isBlankPiece])
  by_cases hmem : Token.semicolon ∈ tokens
  · obtain ⟨part, more, rfl, hpart⟩ := List.eq_append_cons_of_mem hmem
    have hsplit : names ++ .colon :: (.gap :: values ++ .gap :: (part ++ .semicolon :: more)) =
        names ++ .colon :: (.gap :: values ++ .gap :: part) ++ .semicolon :: more := by simp
    have hlegiblePart : Legible part := hlegible.of_part (List.prefix_append part _).isInfix
    have hblank := declaration?_commented_iff hname hvalue hlegiblePart
    rw [hsplit, statements_append_semicolon, hpiece hpart, List.map_append, List.map_singleton,
      List.singleton_append, List.cons.injEq, List.map_eq_nil_iff, hblank, statements_eq_nil_iff,
      isBlankPiece_iff_of_plain hpart, List.forall_mem_append, List.forall_mem_cons]
    simp
  · rw [hpiece hmem, List.map_singleton, List.cons.injEq,
      declaration?_commented_iff hname hvalue hlegible, isBlankPiece_iff_of_plain hmem]
    simp

/-- A readable declaration is written so that reading gives its property and its value, and nothing
else, exactly when the value it has replaced is concealed. -/
theorem Declaration.Readable.read_again_iff {declaration : Declaration}
    (h : declaration.Readable) :
    Block.parse declaration.render =
        .ok ⟨[{ property := declaration.property, value := declaration.value }]⟩ ↔
      ∀ first, declaration.replaced = some first → Concealed first := by
  cases hreplaced : declaration.replaced with
  | none =>
    have hself : (⟨[{ property := declaration.property, value := declaration.value }]⟩ : Block) =
        ⟨[declaration]⟩ := by
      obtain ⟨property, value, replaced⟩ := declaration
      obtain rfl : replaced = none := hreplaced
      rfl
    have hlisting := Block.listing_render ⟨[declaration]⟩
    have hread : Block.parse declaration.render = .ok ⟨[declaration]⟩ := by
      refine Block.parse_of_listing ?_ ?_ (List.pairwise_singleton ..)
      · simpa [Block.render] using hlisting
      · exact List.forall_mem_singleton.2 ⟨h, hreplaced⟩
    simp [hself, hread]
  | some first =>
    obtain ⟨⟨names, hname⟩, values, hvalue⟩ := h
    simp only [Option.some.injEq, forall_eq', Block.parse_eq_ok_iff, List.map_singleton,
      tokens?_render_of_replaced hreplaced hname hvalue, Option.map_eq_some_iff, Concealed]
    constructor
    · rintro ⟨_, ⟨tokens, htokens, rfl⟩, hstatements, _⟩
      exact ⟨tokens, htokens,
        (statements_commented_iff hname hvalue (legible_of_tokens? htokens)).1 hstatements⟩
    · rintro ⟨tokens, htokens, hplain⟩
      exact ⟨_, ⟨tokens, htokens, rfl⟩,
        (statements_commented_iff hname hvalue (legible_of_tokens? htokens)).2 hplain,
        List.pairwise_singleton ..⟩

/-- Reading a written declaration of a composed block gives its property and its value, and nothing
else, exactly when the value it has replaced is concealed. -/
theorem Block.Composed.parse_render_iff {block : Block} (h : block.Composed)
    {declaration : Declaration} (hmem : declaration ∈ block.declarations) :
    (Block.parse declaration.render =
        .ok ⟨[{ property := declaration.property, value := declaration.value }]⟩ ↔
      ∀ first, declaration.replaced = some first → Concealed first) ∧
    ((∀ first, declaration.replaced = some first → NoClosing first.toList) →
      Block.parse declaration.render =
        .ok ⟨[{ property := declaration.property, value := declaration.value }]⟩) := by
  have hiff := (h.readable declaration hmem).read_again_iff
  exact ⟨hiff, fun hclosing => hiff.2 fun first hreplaced =>
    concealed_of_noClosing (hclosing first hreplaced)⟩

/-- A color that replaces another is read again without the comment. -/
theorem Block.replaced_color_is_read_again :
    let block : Block := ⟨[{ property := "color", value := "blue", replaced := some "red" }]⟩
    block.Composed ∧
      Block.parse block.render = .ok ⟨[{ property := "color", value := "blue" }]⟩ := by
  intro block
  have hbase : Block.parse "color: red;" = .ok ⟨[{ property := "color", value := "red" }]⟩ := by
    decide +kernel
  have hother : Block.parse "color: blue;" = .ok ⟨[{ property := "color", value := "blue" }]⟩ := by
    decide +kernel
  have hcomposed : block.Composed := .merge (.parse hbase) hother
  have hred : NoClosing "red".toList := noClosing_of_not_mem (by decide)
  refine ⟨hcomposed, (hcomposed.parse_render_iff (List.mem_singleton_self _)).2 ?_⟩
  rintro first hfirst
  exact Option.some.inj hfirst ▸ hred

/-- A replaced string closes the comment around it, and its last quote opens a string that is never
closed. -/
theorem Block.replaced_string_closes_comment :
    let base : Block := ⟨[{ property := "content", value := "\"*/\"" }]⟩
    let other : Block := ⟨[{ property := "content", value := "\"x\"" }]⟩
    let declaration : Declaration :=
      { property := "content", value := "\"x\"", replaced := some "\"*/\"" }
    Block.parse "content: \"*/\";" = .ok base ∧ Block.parse "content: \"x\";" = .ok other ∧
      declaration ∈ (base.merge other).declarations ∧
      declaration.render = "content: \"x\" /* (original value: \"*/\") */;" ∧
      Block.parse declaration.render = .error (.unterminated "string" ⟨1, 37, 36⟩) := by
  decide +kernel

end StyleForest
