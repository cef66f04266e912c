import Mathlib.Data.List.Lex
import Mathlib.Tactic.SplitIfs

/-!
# The order of texts and of their bytes

Texts are ordered by their first different character, and the bytes of texts by their first
different byte. These are the same order: the first byte of a character tells how many bytes it has,
more bytes stand for larger characters, and the bytes of two characters of one length are ordered
like the digits of numbers.
-/

namespace StyleForest.Text

open String

/-- The bytes of a text. -/
def bytes (text : String) : List UInt8 :=
  text.toByteArray.data.toList

private theorem bytes_eq_flatMap (text : String) :
    bytes text = text.toList.flatMap utf8EncodeChar := by
  have htext : text.toByteArray = text.toList.utf8Encode := by
    rw [← String.toByteArray_ofList, String.ofList_toList]
  rw [bytes, htext, List.utf8Encode, List.toList_data_toByteArray]

/-- A larger character has larger bytes, whatever follows. -/
theorem utf8EncodeChar_append_lt {c d : Char} (h : c < d) (left right : List UInt8) :
    utf8EncodeChar c ++ left < utf8EncodeChar d ++ right := by
  have hlt : c.val.toNat < d.val.toNat := h
  have hbound : d.val.toNat < 0x110000 := by
    rcases d.valid with hlow | ⟨-, hhigh⟩
    · exact lt_trans hlow (by decide)
    · exact hhigh
  simp only [utf8EncodeChar]
  generalize c.val.toNat = m at *
  generalize d.val.toNat = n at *
  -- one case for each pair of lengths
  split <;> split_ifs <;>
    simp (disch := omega) only [List.cons_append, List.nil_append, List.cons_lt_cons_iff,
      UInt8.lt_iff_toNat_lt, ← UInt8.toNat_inj, UInt8.toNat_ofNat', Nat.reducePow,
      Nat.mod_eq_of_lt] <;>
    omega

/-- Texts in order have their bytes in order. -/
theorem flatMap_utf8EncodeChar_lt {left right : List Char} (h : left < right) :
    left.flatMap utf8EncodeChar < right.flatMap utf8EncodeChar := by
  induction left generalizing right with
  | nil =>
    cases right with
    | nil => exact absurd h (List.not_lt_nil _)
    | cons d rest =>
      obtain ⟨byte, bytes, hbytes⟩ := List.exists_cons_of_ne_nil (utf8EncodeChar_ne_nil (c := d))
      rw [List.flatMap_cons, hbytes, List.cons_append]
      exact List.nil_lt_cons _ _
  | cons c left ih =>
    cases right with
    | nil => exact absurd h (List.not_lt_nil _)
    | cons d right =>
      rw [List.flatMap_cons, List.flatMap_cons]
      rcases List.cons_lt_cons_iff.1 h with hfirst | ⟨rfl, hrest⟩
      · exact utf8EncodeChar_append_lt hfirst _ _
      · exact List.Lex.append_left _ (ih hrest) _

/-- A larger text has larger bytes. -/
theorem bytes_lt_bytes {left right : String} (h : left < right) : bytes left < bytes right := by
  rw [bytes_eq_flatMap, bytes_eq_flatMap]
  exact flatMap_utf8EncodeChar_lt (String.lt_iff.1 h)

end StyleForest.Text
