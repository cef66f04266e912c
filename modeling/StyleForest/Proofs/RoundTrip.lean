import StyleForest.Forest.Stylesheet
import StyleForest.Proofs.Readable

/-!
# Written blocks are read back

A readable declaration is written as tokens that spell it again, and blanks around declarations
add nothing. So every text that lists the declarations of a block that was read, be it the block on
one line or the body of a rule at some depth, is read as the same block (`Block.parse_of_listing`).
-/

namespace StyleForest

open Lexeme

/-- The tokens of a declaration with these tokens for its property and its value. -/
def written (names values : List Token) : List Token :=
  names ++ .colon :: .gap :: (values ++ [.semicolon])

private theorem getLast?_written (names values : List Token) :
    (written names values).getLast? = some .semicolon := by
  simp [written, List.getLast?_cons]

private theorem head?_written {names : List Token} {name : String} (h : IsName names name)
    (values : List Token) : (written names values).head? = names.head? :=
  List.head?_append_of_ne_nil _ h.ne_nil

/-- A written declaration can be read back. -/
theorem legible_written {names values : List Token} {name value : String}
    (hname : IsName names name) (hvalue : IsValue values value) :
    Legible (written names values) := by
  have hsemicolon : Legible [.semicolon] := legible_nil.cons trivial (by simp)
  have hend : Legible (values ++ [.semicolon]) := by
    refine hvalue.legible.append hsemicolon fun token _ next hnext => ?_
    cases hnext
    exact token.apart_semicolon
  have hgap : Legible (.gap :: (values ++ [.semicolon])) := by
    refine hend.cons trivial fun next hnext => Token.gap_apart ?_
    rintro rfl
    rw [List.head?_append_of_ne_nil _ hvalue.ne_nil] at hnext
    exact hvalue.solid.1 hnext
  have hcolon : Legible (.colon :: .gap :: (values ++ [.semicolon])) :=
    hgap.cons trivial fun next _ => next.colon_apart
  refine hname.legible.append hcolon fun token _ next hnext => ?_
  cases hnext
  exact token.apart_colon

/-- What a written declaration shows of the value it has replaced. -/
def Declaration.comment (declaration : Declaration) : List Char :=
  match declaration.replaced with
  | none => []
  | some first =>
    ' ' :: '/' :: '*' :: (" (original value: ".toList ++ (first.toList ++ ") */".toList))

private theorem Declaration.comment_of_replaced {declaration : Declaration}
    (h : declaration.replaced = none) : declaration.comment = [] := by
  rw [comment, h]

/-- A declaration is shown as its property, a colon, its value, its comment and a semicolon. -/
theorem Declaration.toList_render (declaration : Declaration) :
    declaration.render.toList = declaration.property.toList ++
      (':' :: ' ' :: (declaration.value.toList ++ (declaration.comment ++ [';']))) := by
  unfold render comment
  cases declaration.replaced with
  | none => simp [toString]
  | some first => simp [toString]

/-- A readable declaration is written as tokens that spell it. -/
theorem Declaration.Readable.spells {declaration : Declaration} (h : declaration.Readable)
    (hreplaced : declaration.replaced = none) :
    ∃ names values, IsName names declaration.property ∧ IsValue values declaration.value ∧
      Spells declaration.render.toList (written names values) := by
  obtain ⟨⟨names, hname⟩, values, hvalue⟩ := h
  have htext : (written names values).flatMap Token.text = declaration.render.toList := by
    rw [declaration.toList_render, declaration.comment_of_replaced hreplaced, List.nil_append,
      written, List.flatMap_append, hname.text_eq, List.flatMap_cons, List.flatMap_cons,
      List.flatMap_append, hvalue.text_eq]
    rfl
  exact ⟨names, values, hname, hvalue, htext ▸ (legible_written hname hvalue).spells⟩

/-- A written declaration is one statement, which spells it. -/
theorem statements_written {names values : List Token} {declaration : Declaration}
    (hname : IsName names declaration.property) (hvalue : IsValue values declaration.value)
    (hreplaced : declaration.replaced = none) {gaps : List Token}
    (hgaps : isBlankPiece gaps = true) (more : List Token) :
    (statements (gaps ++ written names values ++ more)).map declaration? =
      some declaration :: (statements more).map declaration? := by
  obtain ⟨property, value, replaced⟩ := declaration
  obtain rfl : replaced = none := hreplaced
  have hsplit : gaps ++ written names values ++ more =
      gaps ++ names ++ .colon :: ([.gap] ++ values ++ []) ++ .semicolon :: more := by
    simp [written]
  have hplain : Token.semicolon ∉ gaps ++ names ++ .colon :: ([.gap] ++ values ++ []) := by
    have hgap : Token.semicolon ∉ gaps := fun hmem => by cases isBlankPiece_iff.1 hgaps _ hmem
    simp [hgap, hname.not_semicolon, hvalue.not_semicolon]
  have hfull : isBlankPiece (gaps ++ names ++ .colon :: ([.gap] ++ values ++ [])) = false := by
    simp [isBlankPiece]
  rw [hsplit, statements_append_semicolon, statements_of_piece hplain hfull, List.map_append,
    List.map_singleton, declaration?_of_isValue hname hvalue hgaps rfl rfl, List.singleton_append]

/-- The text lists the declarations as they are written, among blanks. -/
inductive Listing : List Declaration → List Char → Prop
  | nil {blanks : List Char} (hblank : ∀ c ∈ blanks, Text.isBlank c = true) : Listing [] blanks
  | cons {blanks text : List Char} {declaration : Declaration} {declarations : List Declaration}
      (hblank : ∀ c ∈ blanks, Text.isBlank c = true) (h : Listing declarations text) :
      Listing (declaration :: declarations) (blanks ++ declaration.render.toList ++ text)

/-- A blank in front changes nothing. -/
theorem Listing.blank {declarations : List Declaration} {text : List Char}
    (h : Listing declarations text) {c : Char} (hc : Text.isBlank c = true) :
    Listing declarations (c :: text) := by
  cases h with
  | nil hblank => exact .nil (List.forall_mem_cons.2 ⟨hc, hblank⟩)
  | cons hblank h => exact .cons (List.forall_mem_cons.2 ⟨hc, hblank⟩) h

/-- Blanks spell gaps. -/
theorem exists_spells_blanks {blanks : List Char} (h : ∀ c ∈ blanks, Text.isBlank c = true) :
    ∃ gaps, isBlankPiece gaps = true ∧ Spells blanks gaps := by
  by_cases hne : blanks = []
  · exact ⟨[], rfl, hne ▸ .nil⟩
  · exact ⟨[.gap], rfl, .single (Token.gap_spelledBy hne h)⟩

/-- The statements of a list of declarations spell these. -/
theorem Listing.exists_tokens {declarations : List Declaration} {text : List Char}
    (h : Listing declarations text)
    (hreadable : ∀ declaration ∈ declarations,
      declaration.Readable ∧ declaration.replaced = none) :
    ∃ tokens, tokens? text = some tokens ∧
      (statements tokens).map declaration? = declarations.map some := by
  induction h with
  | nil hblank =>
    obtain ⟨gaps, hgaps, hspells⟩ := exists_spells_blanks hblank
    exact ⟨gaps, hspells.tokens?_eq, by rw [statements_of_blank hgaps]; rfl⟩
  | @cons blanks text declaration declarations hblank h ih =>
    obtain ⟨⟨hfirst, hreplaced⟩, hrest⟩ := List.forall_mem_cons.1 hreadable
    obtain ⟨tokens, htokens, hmap⟩ := ih hrest
    obtain ⟨gaps, hgaps, hblanks⟩ := exists_spells_blanks hblank
    obtain ⟨names, values, hname, hvalue, hwritten⟩ := hfirst.spells hreplaced
    have hspells : Spells (blanks ++ declaration.render.toList) (gaps ++ written names values) := by
      refine hblanks.append hwritten fun token htoken next hnext => ?_
      rw [isBlankPiece_iff.1 hgaps token (List.mem_of_getLast? htoken)]
      rw [head?_written hname] at hnext
      exact Token.gap_apart fun hgap => hname.solid.1 (hgap ▸ hnext)
    have hlast : (gaps ++ written names values).getLast? = some .semicolon := by
      rw [List.getLast?_append, getLast?_written]
      rfl
    have hstop (token : Token) (htoken : token ∈ (gaps ++ written names values).getLast?) :
        token.StopsBefore text := by
      rw [hlast] at htoken
      cases htoken
      exact trivial
    refine ⟨gaps ++ written names values ++ tokens, ?_, ?_⟩
    · rw [hspells.tokens?_append hstop, htokens, Option.map_some]
    · rw [statements_written hname hvalue hreplaced hgaps, hmap, List.map_cons]

/-- A text that lists declarations which can stand after one another is read as these. -/
theorem Block.parse_of_listing {block : Block} {text : String}
    (h : Listing block.declarations text.toList)
    (hreadable : ∀ declaration ∈ block.declarations,
      declaration.Readable ∧ declaration.replaced = none)
    (hpairwise : block.declarations.Pairwise Declaration.MayPrecede) :
    Block.parse text = .ok block := by
  obtain ⟨tokens, htokens, hmap⟩ := h.exists_tokens hreadable
  exact parse_eq_ok_iff.2 ⟨tokens, htokens, hmap, hpairwise⟩

/-- Writing a block that was read and listing its declarations in any other way gives a text that
is read as the block. -/
theorem Block.parse_of_listing_of_parse {text listing : String} {block : Block}
    (h : Block.parse text = .ok block) (hlisting : Listing block.declarations listing.toList) :
    Block.parse listing = .ok block := by
  obtain ⟨_, _, _, hpairwise⟩ := parse_eq_ok_iff.1 h
  exact parse_of_listing hlisting (fun _ hmem => readable_of_parse h hmem) hpairwise

/-- The display of a block lists its declarations. -/
theorem Block.listing_render (block : Block) : Listing block.declarations block.render.toList := by
  obtain ⟨declarations⟩ := block
  rw [render, String.toList_intercalate, List.map_map]
  induction declarations with
  | nil => exact .nil (by simp)
  | cons declaration rest ih =>
    cases rest with
    | nil =>
      have hsingle : Listing [declaration] ([] ++ declaration.render.toList ++ []) :=
        .cons (by simp) ih
      simpa using hsingle
    | cons next rest =>
      have hspace : Text.isBlank ' ' = true := by decide
      have hboth : Listing (declaration :: next :: rest) ([] ++ declaration.render.toList ++ _) :=
        .cons (by simp) (ih.blank hspace)
      simpa [List.intercalate_cons_cons] using hboth

namespace Rule

/-- An indent is blank. -/
theorem isBlank_of_mem_indent (depth : Nat) : ∀ c ∈ (indent depth).toList,
    Text.isBlank c = true := by
  intro c hc
  rw [indent, String.toList_ofList] at hc
  rw [(List.mem_replicate.1 hc).2]
  decide

/-- What stands between the braces in the lines of a rule. -/
def body (rule : Rule) (depth : Nat) : String :=
  "\n" ++ String.join (rule.block.declarations.map fun declaration =>
    indent (depth + 1) ++ declaration.render ++ "\n") ++ indent depth

/-- The lines of a rule are its selector, a brace, its body and a brace. -/
theorem join_lines (rule : Rule) (depth : Nat) :
    String.join ((rule.lines depth).map (· ++ "\n")) =
      indent depth ++ rule.selector.render ++ " \x7b" ++ rule.body depth ++ "\x7d\n" := by
  rw [← String.toList_inj]
  simp [lines, body, String.toList_join, List.flatMap_map]

/-- The body of a rule lists the declarations of its block. -/
theorem listing_body (rule : Rule) (depth : Nat) :
    Listing rule.block.declarations (rule.body depth).toList := by
  have hfeed : Text.isBlank '\n' = true := by decide
  have hlines (declarations : List Declaration) : Listing declarations
      (declarations.flatMap (fun declaration =>
        (indent (depth + 1)).toList ++ declaration.render.toList ++ ['\n']) ++
          (indent depth).toList) := by
    induction declarations with
    | nil => exact .nil (isBlank_of_mem_indent depth)
    | cons declaration rest ih =>
      have hline : Listing (declaration :: rest)
          ((indent (depth + 1)).toList ++ declaration.render.toList ++ _) :=
        .cons (isBlank_of_mem_indent (depth + 1)) (ih.blank hfeed)
      simpa using hline
  have hbody : (rule.body depth).toList =
      '\n' :: (rule.block.declarations.flatMap (fun declaration =>
        (indent (depth + 1)).toList ++ declaration.render.toList ++ ['\n']) ++
          (indent depth).toList) := by
    simp [body, String.toList_join, List.flatMap_map]
  rw [hbody]
  exact (hlines _).blank hfeed

end Rule

/-- A block that was read is read again from its one line, and from what stands between the braces
of a rule for it at any depth. -/
theorem Block.parse_render_and_body {text : String} {block : Block}
    (h : Block.parse text = .ok block) :
    Block.parse block.render = .ok block ∧
      ∀ (rule : Rule) (depth : Nat), rule.block = block →
        ∃ body, String.join ((rule.lines depth).map (· ++ "\n")) =
            Rule.indent depth ++ rule.selector.render ++ " \x7b" ++ body ++ "\x7d\n" ∧
          Block.parse body = .ok block := by
  refine ⟨parse_of_listing_of_parse h block.listing_render, ?_⟩
  rintro rule depth rfl
  exact ⟨rule.body depth, rule.join_lines depth,
    parse_of_listing_of_parse h (rule.listing_body depth)⟩

/-- A text with a comment, an empty statement, a property in mixed case and separators inside a
group and a string is read as two declarations, which are read again from the written block. -/
theorem Block.mixed_text_is_read_again :
    let block : Block := ⟨[{ property := "margin-top", value := "4px" },
      { property := "cursor", value := "url(a;b) \"x: y;\"" }]⟩
    Block.parse " Margin-Top:4px;; cursor /* hand */ : url(a;b) \"x: y;\" " = .ok block ∧
      Block.parse block.render = .ok block ∧
      ∀ (rule : Rule) (depth : Nat), rule.block = block →
        ∃ body, String.join ((rule.lines depth).map (· ++ "\n")) =
            Rule.indent depth ++ rule.selector.render ++ " \x7b" ++ body ++ "\x7d\n" ∧
          Block.parse body = .ok block := by
  intro block
  have h : Block.parse " Margin-Top:4px;; cursor /* hand */ : url(a;b) \"x: y;\" " = .ok block := by
    decide +kernel
  exact ⟨h, Block.parse_render_and_body h⟩

end StyleForest
