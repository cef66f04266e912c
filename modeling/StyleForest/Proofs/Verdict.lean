import Mathlib.Data.List.Forall2
import StyleForest.Proofs.Grammar

/-!
# The verdict on a declaration text

A text is read as a block or refused, and its segments between the semicolons decide which. Segments
of gaps alone say nothing, every other segment must spell a declaration, and a declaration must
neither repeat nor reset a property that is declared before it. The first segment that fails gives
the reason, whatever stands in the segments after it; a string or a group that is never closed fails
the segment it is opened in (`Block.parse_eq_iff_verdict`).
-/

namespace StyleForest

/-- The reader finds a declaration in each piece exactly when the pieces spell these in order. -/
theorem map_declaration?_eq_iff {pieces : List (List Token)} {declarations : List Declaration} :
    pieces.map declaration? = declarations.map some ↔ pieces.Forall₂ Declares declarations := by
  induction pieces generalizing declarations with
  | nil => cases declarations <;> simp
  | cons piece rest ih =>
    cases declarations with
    | nil => simp
    | cons declaration declarations =>
      rw [List.map_cons, List.map_cons, List.cons.injEq, ih, declaration?_eq_some_iff,
        List.forall₂_cons]

/-- Declarations that are spelled have their properties in lower case. -/
theorem lower_property_of_forall₂ {pieces : List (List Token)} {declarations : List Declaration}
    (h : pieces.Forall₂ Declares declarations) :
    ∀ declaration ∈ declarations, Text.lower declaration.property = declaration.property := by
  induction h with
  | nil => simp
  | cons hform _ ih => exact List.forall_mem_cons.2 ⟨hform.lower_property, ih⟩

/-- The segments that say something: those with a token that is no gap. -/
def solidSegments (segments : List (List PlacedToken)) : List (List Token) :=
  (segments.map (List.map PlacedToken.token)).filter fun tokens => !isBlankPiece tokens

/-- The later declaration neither repeats the property of the earlier one nor resets it. -/
def Declaration.Spares (later earlier : Declaration) : Prop :=
  earlier.property ≠ later.property ∧ Property.resets later.property earlier.property = false

/-- Among declarations that are spelled, being let through is being spared: names in lower case
agree only when they are equal. -/
theorem pairwise_mayPrecede_iff {pieces : List (List Token)} {declarations : List Declaration}
    (h : pieces.Forall₂ Declares declarations) :
    declarations.Pairwise Declaration.MayPrecede ↔
      declarations.Pairwise fun earlier later => later.Spares earlier := by
  have hlower := lower_property_of_forall₂ h
  refine List.Pairwise.iff_of_mem fun {earlier later} hearlier hlater => ?_
  have hnames : Text.sameName earlier.property later.property = false ↔
      earlier.property ≠ later.property := by
    rw [← Bool.not_eq_true, Text.sameName_iff, hlower earlier hearlier, hlower later hlater]
  rw [Declaration.MayPrecede, Declaration.Spares, hnames]

/-- The segments list the declarations: each that says something spells one, in order, and none
repeats or resets a property that is declared before it. -/
structure Listed (segments : List (List PlacedToken)) (declarations : List Declaration) : Prop where
  spelled : (solidSegments segments).Forall₂ Declares declarations
  spared : declarations.Pairwise fun earlier later => later.Spares earlier

/-- The reason why a segment fails after the declarations that precede it. -/
inductive Refused (declared : List Declaration) (segment : List PlacedToken) : BlockError → Prop
  /-- The segment says something but spells no declaration. -/
  | malformed {first : PlacedToken} (hfirst : segment.head? = some first)
      (hsolid : ∃ placed ∈ segment, placed.token ≠ .gap)
      (hform : ∀ declaration, ¬Declares (segment.map PlacedToken.token) declaration) :
      Refused declared segment
        (.malformed (String.ofList (trimmedText (segment.map PlacedToken.token))) first.position)
  /-- The property is declared already. -/
  | duplicate {declaration : Declaration}
      (hform : Declares (segment.map PlacedToken.token) declaration)
      (hrepeats : ∃ earlier ∈ declared, earlier.property = declaration.property) :
      Refused declared segment (.duplicate declaration.property)
  /-- The property is a shorthand, and the longhand is the first one of it that is declared. -/
  | overridden {declaration : Declaration} {longhand : String}
      (hform : Declares (segment.map PlacedToken.token) declaration)
      (hnew : ∀ earlier ∈ declared, earlier.property ≠ declaration.property)
      (hresets : (Property.longhands declaration.property).find? (fun longhand =>
        declared.any fun earlier => Text.sameName earlier.property longhand) = some longhand) :
      Refused declared segment (.overridden longhand declaration.property)

/-- What reading a text comes to: its block, or the reason of its first segment that fails. -/
inductive Verdict (run : TokenRun) : Except BlockError Block → Prop
  | accepted {declarations : List Declaration} (hclosed : run.failure = none)
      (hlisted : Listed run.segments declarations) : Verdict run (.ok ⟨declarations⟩)
  /-- The segment is complete: a semicolon follows it, or everything in it is closed. -/
  | refused {before after : List (List PlacedToken)} {segment : List PlacedToken}
      {declarations : List Declaration} {error : BlockError}
      (hsplit : run.segments = before ++ segment :: after)
      (hcomplete : after ≠ [] ∨ run.failure = none) (hlisted : Listed before declarations)
      (hrefused : Refused declarations segment error) : Verdict run (.error error)
  /-- Something opened in the last segment is never closed. -/
  | unterminated {before : List (List PlacedToken)} {segment : List PlacedToken}
      {declarations : List Declaration} {delimiter : Delimiter} {position : Position}
      (hsplit : run.segments = before ++ [segment])
      (hopen : run.failure = some (.unterminated delimiter.name position))
      (hlisted : Listed before declarations) :
      Verdict run (.error (.unterminated delimiter.name position))

/-- Only what is never closed ends a run early. -/
theorem Cursor.exists_unterminated {cursor : Cursor} {error : BlockError}
    (h : cursor.tokens.failure = some error) :
    ∃ (delimiter : Delimiter) (position : Position),
      error = .unterminated delimiter.name position := by
  fun_induction Cursor.tokens cursor with
  | case1 cursor after hnext => cases h
  | case2 cursor delimiter position after hnext =>
    cases h
    exact ⟨delimiter, position, rfl⟩
  | case3 cursor token after hnext _ _ ih => exact ih h

/-- The first token of a run is scanned from the text. -/
theorem Cursor.scan_of_head? {cursor : Cursor} {placed : PlacedToken}
    (h : cursor.tokens.tokens.head? = some placed) :
    ∃ lexeme rest, Lexeme.scan cursor.rest = .token placed.token lexeme rest := by
  rw [Cursor.tokens] at h
  split at h
  · cases h
  · cases h
  · next token after hnext =>
    cases h
    obtain ⟨lexeme, hscan⟩ := scan_of_next hnext
    exact ⟨lexeme, after.rest, hscan⟩

/-- The tokens that are read stand apart, also when something after them is never closed. -/
theorem Cursor.apart_tokens (cursor : Cursor) :
    cursor.tokens.tokens.IsChain fun placed next => placed.token.Apart next.token := by
  fun_induction Cursor.tokens cursor with
  | case1 cursor after hnext => exact .nil
  | case2 cursor delimiter position after hnext => exact .nil
  | case3 cursor token after hnext _ _ ih =>
    obtain ⟨lexeme, hscan⟩ := scan_of_next hnext
    refine List.isChain_cons.2 ⟨fun next hmem => ?_, ih⟩
    obtain ⟨_, _, hnextScan⟩ := scan_of_head? hmem
    exact Lexeme.apart_of_scan hnextScan (Lexeme.starts_of_scan hscan).stops

namespace Block

/-- A push fails because the property is declared already, or because a longhand of it is. -/
theorem push_eq_error_iff {block : Block} {declaration : Declaration} {error : BlockError} :
    block.push declaration = .error error ↔
      block.contains declaration.property = true ∧ error = .duplicate declaration.property ∨
        block.contains declaration.property = false ∧
          ∃ longhand, (Property.longhands declaration.property).find? block.contains =
            some longhand ∧ error = .overridden longhand declaration.property := by
  unfold push
  cases hown : block.contains declaration.property with
  | true => simp [eq_comm]
  | false =>
    cases hreset : (Property.longhands declaration.property).find? block.contains with
    | none => simp
    | some longhand => simp [eq_comm]

/-- A block contains a property when some declaration has its name. -/
theorem contains_eq_any (block : Block) (property : String) :
    block.contains property =
      block.declarations.any fun earlier => Text.sameName earlier.property property := by
  rw [contains, get?, List.isSome_find?]

/-- Among names in lower case a block contains a property when a declaration has just that name. -/
theorem contains_iff_of_lower {block : Block} {property : String}
    (hlower : ∀ declaration ∈ block.declarations,
      Text.lower declaration.property = declaration.property)
    (hproperty : Text.lower property = property) :
    block.contains property = true ↔
      ∃ earlier ∈ block.declarations, earlier.property = property := by
  rw [contains_eq_any, List.any_eq_true]
  refine exists_congr fun earlier => and_congr_right fun hmem => ?_
  rw [Text.sameName_iff, hlower earlier hmem, hproperty]

/-- A segment that says something is pushed as its declaration or refused as malformed. -/
theorem addPiece_cons_of_solid {block : Block} {first : PlacedToken} {rest : List PlacedToken}
    (h : isBlankPiece ((first :: rest).map PlacedToken.token) = false) :
    block.addPiece (first :: rest) =
      match declaration? ((first :: rest).map PlacedToken.token) with
      | some declaration => block.push declaration
      | none => .error (.malformed
          (String.ofList (trimmedText ((first :: rest).map PlacedToken.token)))
          first.position) := by
  unfold isBlankPiece at h
  unfold addPiece
  dsimp only
  rw [h]
  exact if_neg Bool.false_ne_true

/-- Segments are added to the empty block exactly when they list the declarations of the result. -/
theorem foldlM_segments_eq_ok_iff {segments : List (List PlacedToken)} {block : Block} :
    (segments.map Except.ok).foldlM (fun block piece => piece.bind block.addPiece) Block.empty =
        .ok block ↔ Listed segments block.declarations := by
  rw [foldlM_addPiece_eq_ok_iff]
  simp only [map_declaration?_eq_iff, foldlM_push_eq_ok_iff, Block.empty, List.not_mem_nil,
    false_implies, implies_true, true_and, List.nil_append]
  constructor
  · rintro ⟨declarations, hspelled, hpairwise, rfl⟩
    exact ⟨hspelled, (pairwise_mayPrecede_iff hspelled).1 hpairwise⟩
  · rintro ⟨hspelled, hspared⟩
    exact ⟨block.declarations, hspelled, (pairwise_mayPrecede_iff hspelled).2 hspared, rfl⟩

/-- Gaps alone are added to every block, and nothing refuses them. -/
private theorem addPiece_eq_error_iff_of_blank {block : Block} {segment : List PlacedToken}
    {error : BlockError} (hblank : isBlankPiece (segment.map PlacedToken.token) = true) :
    block.addPiece segment = .error error ↔ Refused block.declarations segment error := by
  have hadd : block.addPiece segment = .ok block := addPiece_eq_ok_iff.2 (by simp [hblank])
  rw [hadd]
  refine ⟨nofun, fun h => ?_⟩
  cases h with
  | malformed _ hsolid _ =>
    obtain ⟨placed, hmem, hgap⟩ := hsolid
    exact absurd (isBlankPiece_iff.1 hblank _ (List.mem_map_of_mem hmem)) hgap
  | duplicate hform _ => simp [hform.isBlankPiece_eq_false] at hblank
  | overridden hform _ _ => simp [hform.isBlankPiece_eq_false] at hblank

/-- A segment that spells no declaration is refused as malformed, where it begins. -/
private theorem addPiece_eq_error_iff_of_malformed {block : Block} {first : PlacedToken}
    {rest : List PlacedToken} {error : BlockError}
    (hsolid : isBlankPiece ((first :: rest).map PlacedToken.token) = false)
    (hnone : declaration? ((first :: rest).map PlacedToken.token) = none) :
    block.addPiece (first :: rest) = .error error ↔
      Refused block.declarations (first :: rest) error := by
  have hform (declaration : Declaration) :
      ¬Declares ((first :: rest).map PlacedToken.token) declaration := by
    rw [← declaration?_eq_some_iff, hnone]
    nofun
  rw [addPiece_cons_of_solid hsolid, hnone]
  constructor
  · rintro ⟨⟩
    refine .malformed rfl ?_ hform
    rw [← Bool.not_eq_true, isBlankPiece_iff, List.forall_mem_map] at hsolid
    simpa only [not_forall, exists_prop] using hsolid
  · intro h
    cases h with
    | malformed hfirst _ _ =>
      cases hfirst
      rfl
    | duplicate hother _ => exact absurd hother (hform _)
    | overridden hother _ _ => exact absurd hother (hform _)

/-- A segment that spells a declaration is refused exactly when this cannot be pushed. -/
private theorem push_eq_error_iff_refused {block : Block} {segment : List PlacedToken}
    {declaration : Declaration} {error : BlockError}
    (hlower : ∀ earlier ∈ block.declarations, Text.lower earlier.property = earlier.property)
    (hform : Declares (segment.map PlacedToken.token) declaration) :
    block.push declaration = .error error ↔ Refused block.declarations segment error := by
  have hunique {other : Declaration} (hother : Declares (segment.map PlacedToken.token) other) :
      other = declaration := by
    rw [← declaration?_eq_some_iff, declaration?_eq_some_iff.2 hform] at hother
    exact (Option.some.inj hother).symm
  have hcontains := contains_iff_of_lower hlower hform.lower_property
  rw [push_eq_error_iff, hcontains, ← Bool.not_eq_true, hcontains]
  simp only [funext block.contains_eq_any, not_exists, not_and]
  constructor
  · rintro (⟨hrepeats, rfl⟩ | ⟨hnew, longhand, hresets, rfl⟩)
    · exact .duplicate hform hrepeats
    · exact .overridden hform hnew hresets
  · intro h
    cases h with
    | malformed _ _ hnone => exact absurd hform (hnone declaration)
    | duplicate hother hrepeats =>
      cases hunique hother
      exact Or.inl ⟨hrepeats, rfl⟩
    | overridden hother hnew hresets =>
      cases hunique hother
      exact Or.inr ⟨hnew, _, hresets, rfl⟩

/-- A segment is not added exactly when it is refused after the declarations of the block. -/
theorem addPiece_eq_error_iff {block : Block} {segment : List PlacedToken} {error : BlockError}
    (hlower : ∀ declaration ∈ block.declarations,
      Text.lower declaration.property = declaration.property) :
    block.addPiece segment = .error error ↔ Refused block.declarations segment error := by
  cases hblank : isBlankPiece (segment.map PlacedToken.token) with
  | true => exact addPiece_eq_error_iff_of_blank hblank
  | false =>
    obtain ⟨first, rest, rfl⟩ : ∃ first rest, segment = first :: rest :=
      List.exists_cons_of_ne_nil (by rintro rfl; cases hblank)
    cases hdeclaration : declaration? ((first :: rest).map PlacedToken.token) with
    | none => exact addPiece_eq_error_iff_of_malformed hblank hdeclaration
    | some declaration =>
      rw [addPiece_cons_of_solid hblank, hdeclaration]
      exact push_eq_error_iff_refused hlower (declaration?_eq_some_iff.1 hdeclaration)

/-- Adding segments fails with the first one that is refused. -/
theorem foldlM_segments_eq_error_iff {segments : List (List PlacedToken)} {error : BlockError} :
    (segments.map Except.ok).foldlM (fun block piece => piece.bind block.addPiece) Block.empty =
        .error error ↔
      ∃ before segment after declarations, segments = before ++ segment :: after ∧
        Listed before declarations ∧ Refused declarations segment error := by
  rw [foldlM_eq_error_iff]
  constructor
  · rintro ⟨before, item, after, reached, hsplit, hbefore, hfails⟩
    obtain ⟨first, others, rfl, rfl, hothers⟩ := List.map_eq_append_iff.1 hsplit
    obtain ⟨segment, rest, rfl, rfl, rfl⟩ := List.map_eq_cons_iff.1 hothers
    have hlisted := foldlM_segments_eq_ok_iff.1 hbefore
    have hlower := lower_property_of_forall₂ hlisted.spelled
    exact ⟨first, segment, rest, reached.declarations, rfl, hlisted,
      (addPiece_eq_error_iff hlower).1 hfails⟩
  · rintro ⟨before, segment, after, declarations, rfl, hlisted, hrefused⟩
    have hlower := lower_property_of_forall₂ hlisted.spelled
    exact ⟨before.map .ok, .ok segment, after.map .ok, ⟨declarations⟩, by simp,
      foldlM_segments_eq_ok_iff.2 hlisted, (addPiece_eq_error_iff hlower).2 hrefused⟩

/-- When everything is closed, the segments alone decide. -/
theorem verdict_of_closed {run : TokenRun} (hclosed : run.failure = none)
    {result : Except BlockError Block} :
    run.pieces.foldlM (fun block piece => piece.bind block.addPiece) Block.empty = result ↔
      Verdict run result := by
  have hpieces : run.pieces = run.segments.map .ok := pieces_of_failure_eq_none hclosed
  rw [hpieces]
  cases result with
  | ok block =>
    rw [foldlM_segments_eq_ok_iff]
    constructor
    · exact fun hlisted => .accepted hclosed hlisted
    · rintro ⟨_, hlisted⟩
      exact hlisted
  | error error =>
    rw [foldlM_segments_eq_error_iff]
    constructor
    · rintro ⟨before, segment, after, declarations, hsplit, hlisted, hrefused⟩
      exact .refused hsplit (Or.inr hclosed) hlisted hrefused
    · intro h
      cases h with
      | refused hsplit _ hlisted hrefused =>
        exact ⟨_, _, _, _, hsplit, hlisted, hrefused⟩
      | unterminated _ hopen _ =>
        rw [hclosed] at hopen
        cases hopen

section

variable {run : TokenRun} {complete : List (List PlacedToken)} {last : List PlacedToken}
  {delimiter : Delimiter} {position : Position} {result : Except BlockError Block}

/-- What becomes of the complete segments is the verdict when the last one is never closed. -/
private theorem verdict_of_complete (hsegments : run.segments = complete ++ [last])
    (hopen : run.failure = some (.unterminated delimiter.name position))
    (h : (complete.map Except.ok).foldlM (fun block piece => piece.bind block.addPiece)
        Block.empty >>= (fun _ => .error (.unterminated delimiter.name position)) = result) :
    Verdict run result := by
  cases hcomplete : (complete.map Except.ok).foldlM
      (fun block piece => piece.bind block.addPiece) Block.empty with
  | ok block =>
    rw [hcomplete] at h
    obtain rfl : .error (.unterminated delimiter.name position) = result := h
    exact .unterminated hsegments hopen (foldlM_segments_eq_ok_iff.1 hcomplete)
  | error error =>
    rw [hcomplete] at h
    obtain rfl : .error error = result := h
    obtain ⟨before, segment, after, declarations, rfl, hlisted, hrefused⟩ :=
      foldlM_segments_eq_error_iff.1 hcomplete
    have hsplit : run.segments = before ++ segment :: (after ++ [last]) := by simp [hsegments]
    exact .refused hsplit (Or.inl (by simp)) hlisted hrefused

/-- The verdict is what becomes of the complete segments when the last one is never closed. -/
private theorem complete_of_verdict (hsegments : run.segments = complete ++ [last])
    (hopen : run.failure = some (.unterminated delimiter.name position))
    (h : Verdict run result) :
    (complete.map Except.ok).foldlM (fun block piece => piece.bind block.addPiece)
        Block.empty >>= (fun _ => .error (.unterminated delimiter.name position)) = result := by
  cases h with
  | accepted hclosed _ =>
    rw [hclosed] at hopen
    cases hopen
  | @refused before after segment declarations error hsplit hfollowed hlisted hrefused =>
    have hafter : after ≠ [] := hfollowed.resolve_right (by simp [hopen])
    obtain ⟨between, final, rfl⟩ := (List.eq_nil_or_concat' after).resolve_left hafter
    have hcomplete : complete = before ++ segment :: between := by
      rw [hsegments, ← List.cons_append, ← List.append_assoc] at hsplit
      exact (List.append_inj' hsplit rfl).1
    rw [foldlM_segments_eq_error_iff.2
      ⟨before, segment, between, declarations, hcomplete, hlisted, hrefused⟩]
    rfl
  | @unterminated before segment declarations other place hsplit hfails hlisted =>
    rw [hopen] at hfails
    have hcomplete : complete = before := by
      rw [hsegments] at hsplit
      exact (List.append_inj' hsplit rfl).1
    have hbefore : (before.map Except.ok).foldlM
        (fun block piece => piece.bind block.addPiece) Block.empty = .ok ⟨declarations⟩ :=
      foldlM_segments_eq_ok_iff.2 hlisted
    rw [hcomplete, hbefore]
    exact congrArg Except.error (Option.some.inj hfails)

/-- When something is never closed, the segment it is opened in fails, unless one before it does. -/
theorem verdict_of_open (hopen : run.failure = some (.unterminated delimiter.name position)) :
    run.pieces.foldlM (fun block piece => piece.bind block.addPiece) Block.empty = result ↔
      Verdict run result := by
  obtain ⟨complete, last, hsegments, hpieces⟩ := run.exists_pieces_eq
  rw [hopen] at hpieces
  rw [hpieces, List.foldlM_append]
  exact ⟨verdict_of_complete hsegments hopen, complete_of_verdict hsegments hopen⟩

end

/-- Reading a text comes to the verdict on its segments. No two gaps stand side by side in these, so
blanks and comments in a row are one space of a value. -/
theorem parse_eq_iff_verdict (text : String) :
    (∀ result, Block.parse text = result ↔ Verdict (Cursor.ofText text).tokens result) ∧
      (Cursor.ofText text).tokens.tokens.IsChain fun placed next =>
        ¬(placed.token = .gap ∧ next.token = .gap) := by
  refine ⟨fun result => ?_, (Cursor.apart_tokens _).imp fun _ _ hapart => hapart.2⟩
  unfold Block.parse
  cases hfailure : (Cursor.ofText text).tokens.failure with
  | none => exact verdict_of_closed hfailure
  | some error =>
    obtain ⟨delimiter, position, rfl⟩ := Cursor.exists_unterminated hfailure
    exact verdict_of_open hfailure

end Block

end StyleForest
