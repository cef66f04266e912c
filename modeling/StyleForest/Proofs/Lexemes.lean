import StyleForest.Declaration.Lexeme

/-!
# Where lexemes end

A lexeme ends at the first place where the token may end, and it ends there again when something
else follows that the token stops before. For a word and for a gap that depends on what follows;
a string ends at its quote and a group at its parenthesis, whatever comes after.
-/

namespace StyleForest

namespace Lexeme

/-- A gap begins with a blank or with the opening of a comment. -/
theorem startsGap_cons_iff {c : Char} {rest : List Char} :
    startsGap (c :: rest) = true ↔
      Text.isBlank c = true ∨ c = '/' ∧ rest.head? = some '*' := by
  by_cases hcomment : c = '/' ∧ rest.head? = some '*'
  · obtain ⟨rfl, hstar⟩ := hcomment
    obtain ⟨tail, rfl⟩ := List.head?_eq_some_iff.1 hstar
    simp [startsGap]
  · simp only [hcomment, or_false]
    unfold startsGap
    split
    · next heq =>
      cases heq
      simp at hcomment
    · next heq =>
      cases heq
      rfl
    · next heq => cases heq

/-- A character that is neither a blank nor a slash begins no gap. -/
theorem startsGap_eq_false {c : Char} (hblank : Text.isBlank c = false) (hslash : c ≠ '/')
    (rest : List Char) : startsGap (c :: rest) = false := by
  rw [← Bool.not_eq_true, startsGap_cons_iff]
  simp [hblank, hslash]

/-- A word ends at one of five characters and at a gap. -/
theorem endsWord_cons_iff {c : Char} {rest : List Char} :
    endsWord (c :: rest) = true ↔
      c ∈ [':', ';', '"', '\'', '('] ∨ startsGap (c :: rest) = true := by
  simp only [endsWord, isQuote, Bool.or_eq_true, beq_iff_eq, List.mem_cons, List.not_mem_nil,
    or_false, or_assoc]

private theorem not_endsWord_star (rest : List Char) : ¬endsWord ('*' :: rest) = true := by
  rw [endsWord_cons_iff, startsGap_cons_iff]
  rintro (hmem | hblank | ⟨hslash, _⟩)
  · revert hmem
    decide
  · revert hblank
    decide
  · cases hslash

/-- Nothing of a gap is left behind it. -/
theorem startsGap_spanGap (inside : Bool) (text : List Char) :
    startsGap (spanGap inside text).2 = false := by
  fun_induction spanGap inside text <;> simp_all [startsGap]

/-- A word is read to where it ends. -/
theorem endsWord_spanWord (text : List Char) : endsWord (spanWord text).2 = true := by
  fun_induction spanWord text <;> simp_all [endsWord]

/-- No word is read where it ends. -/
theorem spanWord_of_endsWord {text : List Char} (h : endsWord text = true) :
    spanWord text = ([], text) := by
  cases text with
  | nil => rfl
  | cons c rest => simp only [spanWord, h, if_true]

/-- No gap is read where none begins. -/
theorem spanGap_of_not_startsGap {text : List Char} (h : startsGap text = false) :
    spanGap false text = ([], text) := by
  fun_cases startsGap text with
  | case1 => cases h
  | case2 c rest hno =>
    have hblank : Text.isBlank c = false := by
      rw [← Bool.not_eq_true]
      intro hblank
      rw [startsGap_cons_iff.2 (Or.inl hblank)] at h
      cases h
    rw [spanGap.eq_def]
    simp [hblank]
  | case3 => rfl

/-- A gap takes in all blanks at its start. -/
theorem spanGap_blanks {blanks : List Char} (hblank : ∀ c ∈ blanks, Text.isBlank c = true)
    (rest : List Char) :
    spanGap false (blanks ++ rest) =
      (blanks ++ (spanGap false rest).1, (spanGap false rest).2) := by
  induction blanks with
  | nil => rfl
  | cons c blanks ih =>
    have hc : Text.isBlank c = true := hblank c List.mem_cons_self
    have hslash : c ≠ '/' := by
      rintro rfl
      revert hc
      decide
    rw [List.cons_append, spanGap.eq_def]
    simp [hslash, hc, ih fun d hd => hblank d (List.mem_cons_of_mem c hd)]

/-- A quote is no backslash. -/
theorem ne_backslash_of_isQuote {c : Char} (h : isQuote c = true) : c ≠ '\\' := by
  rintro rfl
  revert h
  decide

/-- A quote is no blank. -/
theorem isBlank_of_isQuote {c : Char} (h : isQuote c = true) : Text.isBlank c = false := by
  simp only [isQuote, Bool.or_eq_true, beq_iff_eq] at h
  rcases h with rfl | rfl
  · decide
  · decide

/-- A character of a closed string is no backslash unless it escapes the next one. -/
theorem ne_backslash_of_spanQuoted {quote c : Char} {text body rest : List Char}
    (hescape : ∀ d tail, c = '\\' → text = d :: tail → False)
    (h : spanQuoted quote text = some (body, rest)) : c ≠ '\\' := by
  rintro rfl
  cases text with
  | nil => simp [spanQuoted] at h
  | cons d tail => exact hescape d tail rfl rfl

/-- A word ends where it did when something else that ends words follows it. -/
theorem spanWord_append_right (text : List Char) {more : List Char} (h : endsWord more = true) :
    spanWord ((spanWord text).1 ++ more) = ((spanWord text).1, more) := by
  fun_induction spanWord text with
  | case1 => exact spanWord_of_endsWord h
  | case2 => exact spanWord_of_endsWord h
  | case3 c rest hgo word tail hword ih =>
    rw [hword] at ih
    have hrest : word ++ tail = rest := by
      have happend := spanWord_append rest
      rwa [hword] at happend
    -- Only a star after a slash could end the word earlier, and it is the next letter or not there.
    have hgo' : ¬endsWord (c :: (word ++ more)) = true := by
      rw [endsWord_cons_iff, startsGap_cons_iff] at hgo ⊢
      rintro (hmem | hblank | ⟨rfl, hstar⟩)
      · exact hgo (Or.inl hmem)
      · exact hgo (Or.inr (Or.inl hblank))
      · cases word with
        | nil =>
          obtain ⟨after, rfl⟩ := List.head?_eq_some_iff.1 hstar
          exact not_endsWord_star after h
        | cons d word => exact hgo (Or.inr (Or.inr ⟨rfl, by rw [← hrest]; exact hstar⟩))
    simp only [List.cons_append, spanWord, if_neg hgo', ih]

/-- A closed string is made of escaped characters and others up to its quote. -/
theorem spanQuoted_induction {quote : Char} {rest : List Char}
    {motive : List Char → List Char → Prop}
    (escaped : ∀ c text body, motive text body → motive ('\\' :: c :: text) ('\\' :: c :: body))
    (closed : motive (quote :: rest) [quote])
    (other : ∀ c text body, c ≠ '\\' → c ≠ quote → motive text body →
      motive (c :: text) (c :: body))
    {text body : List Char} (h : spanQuoted quote text = some (body, rest)) : motive text body := by
  fun_induction spanQuoted quote text generalizing body with
  | case1 => simp at h
  | case2 c text ih =>
    obtain ⟨⟨b, r⟩, hb, he⟩ := Option.map_eq_some_iff.1 h
    cases he
    exact escaped c text b (ih hb)
  | case3 text _ =>
    cases h
    exact closed
  | case4 c text hescape hne ih =>
    obtain ⟨⟨b, r⟩, hb, he⟩ := Option.map_eq_some_iff.1 h
    cases he
    exact other c text b (ne_backslash_of_spanQuoted hescape hb) hne (ih hb)

/-- A string ends at its quote, whatever comes after. -/
theorem spanQuoted_append_right {quote : Char} (hquote : quote ≠ '\\') {text body rest : List Char}
    (h : spanQuoted quote text = some (body, rest)) (more : List Char) :
    spanQuoted quote (body ++ more) = some (body, more) := by
  refine spanQuoted_induction
    (motive := fun _ body => spanQuoted quote (body ++ more) = some (body, more)) ?_ ?_ ?_ h
  · intro c _ body ih
    simp [spanQuoted, ih]
  · simp [spanQuoted, hquote]
  · intro c _ body hplain hne ih
    simp [spanQuoted, hplain, hne, ih]

/-- A string within a group is taken as a whole. -/
theorem spanGroup_quoted {depth : Nat} {c : Char} {tail body rest : List Char}
    (hquote : isQuote c = true) (hbody : spanQuoted c tail = some (body, rest)) :
    spanGroup depth (c :: tail) =
      (spanGroup depth rest).map fun (group, rest) => (c :: (body ++ group), rest) := by
  rw [spanGroup.eq_def]
  simp only [hquote, if_true]
  split
  · next hnone => simp [hbody] at hnone
  · next hsome =>
    rw [hbody] at hsome
    cases hsome
    rfl

/-- A bracket that opens within a group has to be closed first. -/
theorem spanGroup_open (depth : Nat) (tail : List Char) :
    spanGroup depth ('(' :: tail) =
      (spanGroup (depth + 1) tail).map fun (group, rest) => ('(' :: group, rest) := by
  rw [spanGroup.eq_def]
  simp [isQuote]

/-- The closing bracket of a group ends it. -/
theorem spanGroup_last (tail : List Char) : spanGroup 0 (')' :: tail) = .ok ([')'], tail) := by
  rw [spanGroup.eq_def]
  simp [isQuote]

/-- A bracket that closes within a group closes the one that was opened last. -/
theorem spanGroup_close (depth : Nat) (tail : List Char) :
    spanGroup (depth + 1) (')' :: tail) =
      (spanGroup depth tail).map fun (group, rest) => (')' :: group, rest) := by
  rw [spanGroup.eq_def]
  simp [isQuote]

/-- Every other character is taken into the group. -/
theorem spanGroup_other {depth : Nat} {c : Char} (hquote : ¬isQuote c = true) (hopen : c ≠ '(')
    (hclose : c ≠ ')') (tail : List Char) :
    spanGroup depth (c :: tail) =
      (spanGroup depth tail).map fun (group, rest) => (c :: group, rest) := by
  rw [spanGroup.eq_def]
  simp [hquote, hopen, hclose]

/-- A closed group is made of strings, groups and other characters up to its parenthesis. -/
theorem spanGroup_induction {rest : List Char} {motive : Nat → List Char → List Char → Prop}
    (quoted : ∀ depth c tail body after group, isQuote c = true →
      spanQuoted c tail = some (body, after) → motive depth after group →
      motive depth (c :: tail) (c :: (body ++ group)))
    (opened : ∀ depth tail group, motive (depth + 1) tail group →
      motive depth ('(' :: tail) ('(' :: group))
    (last : motive 0 (')' :: rest) [')'])
    (closed : ∀ depth tail group, motive depth tail group →
      motive (depth + 1) (')' :: tail) (')' :: group))
    (other : ∀ depth c tail group, ¬isQuote c = true → c ≠ '(' → c ≠ ')' →
      motive depth tail group → motive depth (c :: tail) (c :: group))
    {depth : Nat} {text group : List Char} (h : spanGroup depth text = .ok (group, rest)) :
    motive depth text group := by
  fun_induction spanGroup depth text generalizing group with
  | case1 => simp at h
  | case2 => simp at h
  | case3 depth c tail hquote body after hb _ ih =>
    obtain ⟨⟨g, r⟩, hg, he⟩ := exists_of_map_ok h
    cases he
    exact quoted depth c tail body after g hquote hb (ih hg)
  | case4 depth tail _ ih =>
    obtain ⟨⟨g, r⟩, hg, he⟩ := exists_of_map_ok h
    cases he
    exact opened depth tail g (ih hg)
  | case5 =>
    cases h
    exact last
  | case6 tail depth _ _ ih =>
    obtain ⟨⟨g, r⟩, hg, he⟩ := exists_of_map_ok h
    cases he
    exact closed depth tail g (ih hg)
  | case7 depth c tail hquote hopen hclose ih =>
    obtain ⟨⟨g, r⟩, hg, he⟩ := exists_of_map_ok h
    cases he
    exact other depth c tail g hquote hopen hclose (ih hg)

/-- A group ends at its parenthesis, whatever comes after. -/
theorem spanGroup_append_right {depth : Nat} {text group rest : List Char}
    (h : spanGroup depth text = .ok (group, rest)) (more : List Char) :
    spanGroup depth (group ++ more) = .ok (group, more) := by
  refine spanGroup_induction
    (motive := fun depth _ group => spanGroup depth (group ++ more) = .ok (group, more))
    ?_ ?_ ?_ ?_ ?_ h
  · intro depth c _ body _ group hquote hspan ih
    have hbody := spanQuoted_append_right (ne_backslash_of_isQuote hquote) hspan (group ++ more)
    rw [List.cons_append, List.append_assoc, spanGroup_quoted hquote hbody, ih]
    rfl
  · intro depth _ group ih
    rw [List.cons_append, spanGroup_open, ih]
    rfl
  · exact spanGroup_last more
  · intro depth _ group ih
    rw [List.cons_append, spanGroup_close, ih]
    rfl
  · intro depth c _ group hquote hopen hclose ih
    rw [List.cons_append, spanGroup_other hquote hopen hclose, ih]
    rfl

/-- A text that begins with a gap is read as one. -/
theorem scan_gap {text : List Char} (h : startsGap text = true) :
    scan text = .token .gap (spanGap false text).1 (spanGap false text).2 := by
  cases text with
  | nil => cases h
  | cons c rest => simp only [scan, h, if_true]

/-- A text that begins with neither a gap nor a delimiter is read as a word. -/
theorem scan_word {text : List Char} (h : endsWord text = false) :
    scan text = .token (.word (spanWord text).1) (spanWord text).1 (spanWord text).2 := by
  cases text with
  | nil => cases h
  | cons c rest =>
    simp only [endsWord, Bool.or_eq_false_iff, beq_eq_false_iff_ne] at h
    obtain ⟨⟨⟨⟨hcolon, hsemicolon⟩, hquote⟩, hopen⟩, hgap⟩ := h
    simp [scan, hcolon, hsemicolon, hquote, hopen, hgap]

/-- A colon is a token of its own. -/
theorem scan_colon (rest : List Char) : scan (':' :: rest) = .token .colon [':'] rest := by
  have hgap : startsGap (':' :: rest) = false := startsGap_eq_false (by decide) (by decide) rest
  simp [scan, hgap]

/-- A semicolon is a token of its own. -/
theorem scan_semicolon (rest : List Char) :
    scan (';' :: rest) = .token .semicolon [';'] rest := by
  have hgap : startsGap (';' :: rest) = false := startsGap_eq_false (by decide) (by decide) rest
  simp [scan, hgap]

/-- A quote begins a string when it is closed. -/
theorem scan_quoted {c : Char} {tail body rest : List Char} (hquote : isQuote c = true)
    (h : spanQuoted c tail = some (body, rest)) :
    scan (c :: tail) = .token (.quoted (c :: body)) (c :: body) rest := by
  have hslash : c ≠ '/' := by
    rintro rfl
    cases hquote
  have hgap : startsGap (c :: tail) = false :=
    startsGap_eq_false (isBlank_of_isQuote hquote) hslash tail
  have hcolon : c ≠ ':' := by
    rintro rfl
    cases hquote
  have hsemicolon : c ≠ ';' := by
    rintro rfl
    cases hquote
  simp [scan, hgap, hcolon, hsemicolon, hquote, h]

/-- A bracket begins a group when it is closed. -/
theorem scan_group {tail body rest : List Char} (h : spanGroup 0 tail = .ok (body, rest)) :
    scan ('(' :: tail) = .token (.group ('(' :: body)) ('(' :: body) rest := by
  have hgap : startsGap ('(' :: tail) = false := startsGap_eq_false (by decide) (by decide) tail
  simp [scan, hgap, isQuote, h]

/-- Only the empty text has no token. -/
theorem scan_eq_finished_iff {text : List Char} : scan text = .finished ↔ text = [] := by
  constructor
  · intro h
    fun_cases scan text <;> grind [scan]
  · rintro rfl
    rfl

end Lexeme

end StyleForest
