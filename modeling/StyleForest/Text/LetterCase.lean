/-!
# Letter case

Names in a stylesheet are compared without regard to the case of the twenty-six ASCII
letters; all other characters stand for themselves. Two names agree exactly when
their lower-case forms are equal, so agreement is an equivalence.
-/

namespace StyleForest.Text

/-- The text with its ASCII letters in lower case. -/
def lower (text : String) : String :=
  String.ofList (text.toList.map Char.toLower)

/-- Two names agree up to the case of ASCII letters. -/
def sameName (left right : String) : Bool :=
  lower left == lower right

private theorem isUpper_iff_val {c : Char} : c.isUpper = true ↔ c.val ≥ 'A'.val ∧ c.val ≤ 'Z'.val :=
  decide_eq_true_iff

private theorem isLower_iff_val {c : Char} :
    c.isLower = true ↔ c.val ≥ 'a'.val ∧ c.val ≤ 'z'.val := by
  show (decide (c.val ≥ 'a'.val) && decide (c.val ≤ 'z'.val)) = true ↔ _
  rw [Bool.and_eq_true, decide_eq_true_eq, decide_eq_true_eq]

/-- The letters in upper case have the codes from 65 to 90. -/
theorem isUpper_iff {c : Char} : c.isUpper = true ↔ 65 ≤ c.toNat ∧ c.toNat ≤ 90 := by
  rw [isUpper_iff_val, ge_iff_le, UInt32.le_iff_toNat_le, UInt32.le_iff_toNat_le]
  rfl

/-- The letters in lower case have the codes from 97 to 122. -/
theorem isLower_iff {c : Char} : c.isLower = true ↔ 97 ≤ c.toNat ∧ c.toNat ≤ 122 := by
  rw [isLower_iff_val, ge_iff_le, UInt32.le_iff_toNat_le, UInt32.le_iff_toNat_le]
  rfl

/-- Letters are in upper or in lower case. -/
theorem isAlpha_iff {c : Char} : c.isAlpha = true ↔ c.isUpper = true ∨ c.isLower = true := by
  show (c.isUpper || c.isLower) = true ↔ _
  rw [Bool.or_eq_true]

/-- The two alphabets stand thirty-two code points apart. -/
theorem toNat_toLower {c : Char} (h : c.isUpper = true) : c.toLower.toNat = c.toNat + 32 := by
  have hval := isUpper_iff_val.1 h
  have hbound : c.toNat + 32 < 2 ^ 32 := by
    have hrange := isUpper_iff.1 h
    omega
  have hlower : c.toLower = _ := dif_pos hval
  rw [hlower]
  exact (UInt32.toNat_add _ _).trans (Nat.mod_eq_of_lt hbound)

/-- Only letters in upper case are changed. -/
theorem toLower_of_not_isUpper {c : Char} (h : ¬c.isUpper = true) : c.toLower = c :=
  dif_neg fun hval => h (isUpper_iff_val.2 hval)

/-- A letter in upper case becomes one in lower case. -/
theorem isLower_toLower {c : Char} (h : c.isUpper = true) : c.toLower.isLower = true := by
  have hrange := isUpper_iff.1 h
  rw [isLower_iff, toNat_toLower h]
  omega

/-- A letter in lower case stays as it is. -/
theorem toLower_toLower (c : Char) : c.toLower.toLower = c.toLower := by
  by_cases h : c.isUpper = true
  · have hlower := isLower_iff.1 (isLower_toLower h)
    refine toLower_of_not_isUpper fun hupper => ?_
    have hrange := isUpper_iff.1 hupper
    omega
  · rw [toLower_of_not_isUpper h, toLower_of_not_isUpper h]

/-- Lower case changes letters into letters and nothing else. -/
theorem toLower_cases (c : Char) :
    c.toLower = c ∨ c.isAlpha = true ∧ c.toLower.isAlpha = true := by
  by_cases h : c.isUpper = true
  · exact Or.inr ⟨isAlpha_iff.2 (Or.inl h), isAlpha_iff.2 (Or.inr (isLower_toLower h))⟩
  · exact Or.inl (toLower_of_not_isUpper h)

/-- What is no letter is the lower case of itself only. -/
theorem toLower_eq_iff {c k : Char} (h : k.isAlpha = false) : c.toLower = k ↔ c = k := by
  rcases toLower_cases c with hsame | ⟨hletter, hlower⟩
  · rw [hsame]
  · constructor
    · rintro rfl
      rw [hlower] at h
      cases h
    · rintro rfl
      rw [hletter] at h
      cases h

/-- A text in lower case stays as it is. -/
theorem lower_lower (text : String) : lower (lower text) = lower text := by
  simp only [lower, String.toList_ofList, List.map_map]
  congr 1
  exact List.map_congr_left fun c _ => toLower_toLower c

/-- Names are the same when they are equal in lower case. -/
theorem sameName_iff {left right : String} :
    sameName left right = true ↔ lower left = lower right := by
  simp [sameName]

@[simp] theorem sameName_refl (name : String) : sameName name name = true := by
  simp [sameName]

/-- Being the same does not depend on the order of the names. -/
theorem sameName_comm (left right : String) : sameName left right = sameName right left := by
  simp only [sameName, Bool.beq_comm]

end StyleForest.Text
