import StyleForest.Text.LetterCase

/-!
# Blank characters

The characters with the Unicode property `White_Space`, given by their ranges, and
trimming by them. The class contains the four blanks of the ASCII class and
twenty-one others, so a no-break space or a line separator ends a word too.
-/

namespace StyleForest.Text

/-- The ranges of code points with the property `White_Space`, in increasing order. -/
def blankRanges : List (Nat × Nat) :=
  [(0x0009, 0x000D), (0x0020, 0x0020), (0x0085, 0x0085), (0x00A0, 0x00A0), (0x1680, 0x1680),
   (0x2000, 0x200A), (0x2028, 0x2029), (0x202F, 0x202F), (0x205F, 0x205F), (0x3000, 0x3000)]

/-- A character is blank when its code point lies in one of the ranges. -/
def isBlank (c : Char) : Bool :=
  blankRanges.any fun (low, high) => low ≤ c.toNat && c.toNat ≤ high

/-- Every blank of the ASCII class is blank here. -/
theorem isBlank_of_isWhitespace {c : Char} (h : c.isWhitespace = true) : isBlank c = true := by
  simp only [Char.isWhitespace, Bool.or_eq_true, decide_eq_true_eq] at h
  rcases h with ((rfl | rfl) | rfl) | rfl <;> decide

/-- No ASCII letter and no digit is blank. -/
theorem isBlank_of_isAlphanum {c : Char} (h : c.isAlphanum = true) : isBlank c = false := by
  rw [Char.isAlphanum, Bool.or_eq_true, isAlpha_iff, isUpper_iff, isLower_iff] at h
  simp only [Char.isDigit, Bool.and_eq_true, decide_eq_true_eq, UInt32.le_iff_toNat_le, ge_iff_le,
    Char.toNat_val, Char.reduceToNat] at h
  simp only [isBlank, blankRanges, List.any_cons, List.any_nil, Bool.or_false, Bool.or_eq_false_iff,
    Bool.and_eq_false_iff, decide_eq_false_iff_not]
  omega

/-- Drops the blanks at the start of a text. -/
def trimStart (text : List Char) : List Char :=
  text.dropWhile isBlank

/-- Drops the blanks at the end of a text. -/
def trimEnd (text : List Char) : List Char :=
  (trimStart text.reverse).reverse

/-- Drops the blanks at both ends of a text. -/
def trim (text : List Char) : List Char :=
  trimEnd (trimStart text)

/-- Dropping the blanks at the start leaves nothing exactly when the whole text is blank. -/
theorem trimStart_eq_nil_iff {text : List Char} :
    trimStart text = [] ↔ ∀ c ∈ text, isBlank c = true := by
  induction text with
  | nil => simp [trimStart]
  | cons c rest ih =>
    by_cases h : isBlank c <;> simp_all [trimStart]

/-- Trimming the start of a text does not depend on blanks in front of it. -/
theorem trimStart_append {blanks : List Char} (h : ∀ c ∈ blanks, isBlank c = true)
    (text : List Char) : trimStart (blanks ++ text) = trimStart text :=
  List.dropWhile_append_of_pos h

/-- Trimming leaves a text as it is that begins with no blank. -/
theorem trimStart_of_head? {text : List Char} (h : ∀ c ∈ text.head?, isBlank c = false) :
    trimStart text = text := by
  cases text with
  | nil => rfl
  | cons c rest =>
    have hc : isBlank c = false := h c rfl
    simp [trimStart, hc]

/-- The text neither begins nor ends with a blank. -/
def Trimmed (text : List Char) : Prop :=
  (∀ c ∈ text.head?, isBlank c = false) ∧ ∀ c ∈ text.getLast?, isBlank c = false

/-- Trimming drops exactly the blanks around a trimmed text. -/
theorem Trimmed.trim_append {before text after : List Char} (h : Trimmed text)
    (hbefore : ∀ c ∈ before, isBlank c = true) (hafter : ∀ c ∈ after, isBlank c = true) :
    trim (before ++ text ++ after) = text := by
  have hreverse : ∀ c ∈ text.reverse.head?, isBlank c = false := by
    rw [List.head?_reverse]
    exact h.2
  have hblanks (c : Char) (hmem : c ∈ after.reverse) : isBlank c = true :=
    hafter c (List.mem_reverse.1 hmem)
  have hstart : trimStart (before ++ text ++ after) = trimStart (text ++ after) := by
    rw [List.append_assoc, trimStart_append hbefore]
  cases text with
  | nil =>
    rw [trim, hstart, List.nil_append, trimStart_eq_nil_iff.2 hafter]
    rfl
  | cons c rest =>
    have hfirst : ∀ d ∈ (c :: rest ++ after).head?, isBlank d = false := h.1
    rw [trim, hstart, trimStart_of_head? hfirst, trimEnd, List.reverse_append,
      trimStart_append hblanks, trimStart_of_head? hreverse, List.reverse_reverse]

end StyleForest.Text
