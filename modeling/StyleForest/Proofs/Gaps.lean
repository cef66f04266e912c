import StyleForest.Proofs.Spelling

/-!
# Runs of blanks and comments

A gap is a run of blanks and comments, and what is read as a gap is a whole run: it ends where
neither a blank nor a comment follows, or in a comment that is never closed, at the end of the text
(`Lexeme.wholeGap_of_scan`). In the other direction every run that is not empty is read as a gap
(`Lexeme.IsGapBefore.scan_append`, `Lexeme.OpenGaps.scan_eq`), so that all runs without an open
comment stand for the same token.
-/

namespace StyleForest

open Lexeme

/-- The text has no end of a comment. -/
def NoClosing (text : List Char) : Prop :=
  ¬['*', '/'] <:+: text

/-- A text without stars has no end of a comment. -/
theorem noClosing_of_not_mem {text : List Char} (h : '*' ∉ text) : NoClosing text :=
  fun hpart => h (hpart.subset List.mem_cons_self)

/-- A text has no end of a comment when none begins at its first character or after it. -/
theorem noClosing_cons_iff {c : Char} {text : List Char} :
    NoClosing (c :: text) ↔ ¬(c = '*' ∧ text.head? = some '/') ∧ NoClosing text := by
  have hstart : ['*', '/'] <+: c :: text ↔ c = '*' ∧ text.head? = some '/' := by
    rw [List.cons_prefix_cons, eq_comm (a := '*')]
    refine and_congr_right fun _ => ?_
    cases text with
    | nil => simp
    | cons d text => simp [List.cons_prefix_cons, eq_comm]
  rw [NoClosing, List.infix_cons_iff, hstart, not_or, NoClosing]

/-- A text has a first end of a comment, or it has none. -/
theorem exists_closing_or_noClosing (text : List Char) :
    (∃ body rest, text = body ++ '*' :: '/' :: rest ∧ NoClosing body) ∨ NoClosing text := by
  induction text with
  | nil => exact Or.inr (noClosing_of_not_mem (by simp))
  | cons c text ih =>
    by_cases hends : c = '*' ∧ text.head? = some '/'
    · obtain ⟨rfl, hslash⟩ := hends
      obtain ⟨rest, rfl⟩ := List.head?_eq_some_iff.1 hslash
      exact Or.inl ⟨[], rest, rfl, noClosing_of_not_mem (by simp)⟩
    · rcases ih with ⟨body, rest, rfl, hbody⟩ | hopen
      · refine Or.inl ⟨c :: body, rest, rfl, noClosing_cons_iff.2 ⟨?_, hbody⟩⟩
        rintro ⟨rfl, hslash⟩
        obtain ⟨more, rfl⟩ := List.head?_eq_some_iff.1 hslash
        exact hends ⟨rfl, rfl⟩
      · exact Or.inr (noClosing_cons_iff.2 ⟨hends, hopen⟩)

namespace Lexeme

/-- Within a comment every character is taken that does not begin the end of it. -/
theorem spanGap_inside_cons {c : Char} {rest : List Char} (h : ¬(c = '*' ∧ rest.head? = some '/')) :
    spanGap true (c :: rest) = (c :: (spanGap true rest).1, (spanGap true rest).2) := by
  rw [spanGap.eq_def]
  split
  · next heq =>
    cases heq
  · next heq =>
    cases heq
    simp at h
  · next heq =>
    cases heq
    rfl
  · next hinside _ => cases hinside
  · next hinside _ => cases hinside

/-- Inside a comment a text without an end of a comment is skipped whole, unless what follows
makes one with its last star. -/
theorem spanGap_of_noClosing {text rest : List Char} (h : NoClosing text)
    (hjoint : ¬(text.getLast? = some '*' ∧ rest.head? = some '/')) :
    spanGap true (text ++ rest) = (text ++ (spanGap true rest).1, (spanGap true rest).2) := by
  induction text with
  | nil => rfl
  | cons c text ih =>
    have htail : NoClosing text := fun hpart => h (List.infix_cons hpart)
    have hlast : ¬(text.getLast? = some '*' ∧ rest.head? = some '/') := fun hboth =>
      hjoint ⟨List.mem_getLast?_cons hboth.1, hboth.2⟩
    have hopen : ¬(c = '*' ∧ (text ++ rest).head? = some '/') := by
      rintro ⟨rfl, hslash⟩
      cases text with
      | nil => exact hjoint ⟨rfl, hslash⟩
      | cons d text =>
        obtain rfl : d = '/' := Option.some.inj hslash
        exact h (List.prefix_append ['*', '/'] text).isInfix
    rw [List.cons_append, spanGap_inside_cons hopen, ih htail hlast]
    rfl

/-- The text is a run of blanks and comments, and all the comments are closed. -/
inductive Gaps : List Char → Prop
  | nil : Gaps []
  | blank {c : Char} {rest : List Char} (hblank : Text.isBlank c = true) (h : Gaps rest) :
      Gaps (c :: rest)
  | comment {body rest : List Char} (hbody : NoClosing body) (h : Gaps rest) :
      Gaps ('/' :: '*' :: (body ++ '*' :: '/' :: rest))

/-- The text is a run of blanks and comments, and the last comment is never closed. -/
def OpenGaps (text : List Char) : Prop :=
  ∃ gaps body, text = gaps ++ '/' :: '*' :: body ∧ Gaps gaps ∧ NoClosing body

/-- The run cannot be made longer with what follows it: that starts with neither a blank nor a
comment, or a comment that is never closed has taken everything. -/
def WholeGap (run rest : List Char) : Prop :=
  Gaps run ∧ startsGap rest = false ∨ OpenGaps run ∧ rest = []

/-- The run can stand in front of the text: an open comment only in front of nothing. -/
def IsGapBefore (run rest : List Char) : Prop :=
  run ≠ [] ∧ Gaps run ∨ OpenGaps run ∧ rest = []

variable {run more rest : List Char}

/-- A run of gaps after another is a run of gaps. -/
theorem Gaps.append (h : Gaps run) (hmore : Gaps more) : Gaps (run ++ more) := by
  induction h with
  | nil => exact hmore
  | blank hblank _ ih => exact .blank hblank ih
  | @comment body rest hbody _ ih =>
    rw [List.cons_append, List.cons_append, List.append_assoc]
    exact .comment hbody ih

/-- Gaps may stand in front of an open run. -/
theorem Gaps.append_open (h : Gaps run) (hmore : OpenGaps more) : OpenGaps (run ++ more) := by
  obtain ⟨gaps, body, rfl, hgaps, hbody⟩ := hmore
  exact ⟨run ++ gaps, body, by simp, h.append hgaps, hbody⟩

/-- Gaps may stand in front of a whole gap. -/
theorem Gaps.append_whole (h : Gaps run) (hmore : WholeGap more rest) :
    WholeGap (run ++ more) rest := by
  rcases hmore with ⟨hclosed, hstop⟩ | ⟨hopen, hend⟩
  · exact Or.inl ⟨h.append hclosed, hstop⟩
  · exact Or.inr ⟨h.append_open hopen, hend⟩

private theorem startsGap_comment (rest : List Char) : startsGap ('/' :: '*' :: rest) = true :=
  startsGap_cons_iff.2 (Or.inr ⟨rfl, rfl⟩)

/-- A text begins with a gap when a nonempty run of gaps stands in front of it. -/
theorem Gaps.startsGap_append (h : Gaps run) (hne : run ≠ []) (rest : List Char) :
    startsGap (run ++ rest) = true := by
  cases h with
  | nil => exact absurd rfl hne
  | blank hblank _ => exact startsGap_cons_iff.2 (Or.inl hblank)
  | comment _ _ => exact startsGap_comment _

private theorem OpenGaps.startsGap_eq (h : OpenGaps run) : startsGap run = true := by
  obtain ⟨gaps, body, rfl, hgaps, _⟩ := h
  by_cases hne : gaps = []
  · rw [hne]
    exact startsGap_comment body
  · exact hgaps.startsGap_append hne _

/-- A gap takes in every run in front of it. -/
theorem Gaps.spanGap_append (h : Gaps run) (rest : List Char) :
    spanGap false (run ++ rest) = (run ++ (spanGap false rest).1, (spanGap false rest).2) := by
  induction h with
  | nil => rfl
  | @blank c run hblank _ ih =>
    have hfirst : ∀ d ∈ [c], Text.isBlank d = true := List.forall_mem_singleton.2 hblank
    have hspan := spanGap_blanks hfirst (run ++ rest)
    rw [ih] at hspan
    exact hspan
  | @comment body run hbody _ ih =>
    have hinside : spanGap true (body ++ '*' :: '/' :: (run ++ rest)) =
        (body ++ '*' :: '/' :: (spanGap false (run ++ rest)).1, (spanGap false (run ++ rest)).2) :=
      spanGap_of_noClosing hbody (by simp)
    simp [spanGap, hinside, ih]

/-- A comment that is never closed takes in everything. -/
theorem OpenGaps.spanGap_eq (h : OpenGaps run) : spanGap false run = (run, []) := by
  obtain ⟨gaps, body, rfl, hgaps, hbody⟩ := h
  have hinside : spanGap true (body ++ []) = (body ++ [], []) :=
    spanGap_of_noClosing hbody (by simp)
  rw [List.append_nil] at hinside
  rw [hgaps.spanGap_append]
  simp [spanGap, hinside]

/-- What is split off as a gap is a whole run. -/
theorem wholeGap_spanGap (text : List Char) :
    WholeGap (spanGap false text).1 (spanGap false text).2 := by
  induction hlength : text.length using Nat.strong_induction_on generalizing text with
  | _ length ih =>
    cases hstart : startsGap text with
    | false =>
      rw [spanGap_of_not_startsGap hstart]
      exact Or.inl ⟨.nil, hstart⟩
    | true =>
      obtain ⟨c, rest, rfl⟩ : ∃ c rest, text = c :: rest :=
        List.exists_cons_of_ne_nil (by rintro rfl; cases hstart)
      rcases startsGap_cons_iff.1 hstart with hblank | ⟨rfl, hstar⟩
      · have hrun : Gaps [c] := .blank hblank .nil
        have hshorter : rest.length < length := by simp [← hlength]
        rw [← List.singleton_append, hrun.spanGap_append]
        exact hrun.append_whole (ih _ hshorter rest rfl)
      · obtain ⟨inside, rfl⟩ := List.head?_eq_some_iff.1 hstar
        rcases exists_closing_or_noClosing inside with ⟨body, rest, rfl, hbody⟩ | hbody
        · have hrun : Gaps ('/' :: '*' :: (body ++ '*' :: '/' :: [])) := .comment hbody .nil
          have hshorter : rest.length < length := by
            simp only [← hlength, List.length_cons, List.length_append]
            omega
          have hsplit : '/' :: '*' :: (body ++ '*' :: '/' :: rest) =
              '/' :: '*' :: (body ++ '*' :: '/' :: []) ++ rest := by simp
          rw [hsplit, hrun.spanGap_append]
          exact hrun.append_whole (ih _ hshorter rest rfl)
        · have hopen : OpenGaps ('/' :: '*' :: inside) := ⟨[], inside, rfl, .nil, hbody⟩
          rw [hopen.spanGap_eq]
          exact Or.inr ⟨hopen, rfl⟩

/-- What is read as a gap is a whole run. -/
theorem wholeGap_of_scan {text : List Char} (h : scan text = .token .gap run rest) :
    WholeGap run rest := by
  have hstart : startsGap text = true := (starts_of_scan h).gap_iff.1 rfl
  rw [scan_gap hstart] at h
  cases h
  exact wholeGap_spanGap text

/-- A run is read as a gap in front of everything that is no gap. -/
theorem Gaps.spelledBy (h : Gaps run) (hne : run ≠ []) : Token.gap.SpelledBy run := by
  intro rest hstop
  rw [scan_gap (h.startsGap_append hne rest), h.spanGap_append, spanGap_of_not_startsGap hstop,
    List.append_nil]

/-- An open run is read as one gap, to the end of the text. -/
theorem OpenGaps.scan_eq (h : OpenGaps run) : scan run = .token .gap run [] := by
  rw [scan_gap h.startsGap_eq, h.spanGap_eq]

/-- A run that can stand in front of a text is read as a gap there. -/
theorem IsGapBefore.scan_append (h : IsGapBefore run rest) (hstop : startsGap rest = false) :
    scan (run ++ rest) = .token .gap run rest := by
  rcases h with ⟨hne, hclosed⟩ | ⟨hopen, rfl⟩
  · exact hclosed.spelledBy hne rest hstop
  · rw [List.append_nil, hopen.scan_eq]

/-- What a token is read from spells it, unless the text is a comment that is never closed. -/
theorem spelledBy_of_scan {text lexeme rest : List Char} {token : Token}
    (h : scan text = .token token lexeme rest) (hclosed : ¬OpenGaps text) :
    token.SpelledBy lexeme := by
  have hstarts := starts_of_scan h
  by_cases hgap : token = .gap
  · subst hgap
    rcases wholeGap_of_scan h with ⟨hrun, _⟩ | ⟨hopen, rfl⟩
    · exact hrun.spelledBy (scan_lexeme_ne_nil h)
    · rw [← scan_append h, List.append_nil] at hclosed
      exact absurd hopen hclosed
  · rw [hstarts.lexeme_eq hgap]
    exact hstarts.wellFormed.spelledBy

end Lexeme

end StyleForest
