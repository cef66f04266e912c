import StyleForest.Number.Binary64

/-!
# Decimal numerals

The parts of a decimal numeral (a sign, digits before and after the point, an exponent) and
two readings of them. The correctly rounded reading takes all digits into account. The
accumulating reading keeps as many leading digits as fit into 64 bits, and then scales the
rounded significand by one rounded power of ten.
-/

namespace StyleForest

/-- The parts of a numeral. -/
structure Numeral where
  negative : Bool
  whole : List Char
  /-- The digits after the point, if there is a point. -/
  fraction : Option (List Char)
  /-- The exponent, if one is written. -/
  exponent : Option Int
  deriving DecidableEq, Repr

namespace Numeral

/-- The value of a digit. -/
def digitValue (digit : Char) : Nat :=
  digit.toNat - '0'.toNat

/-- The value of digits read from the left. -/
def digitsValue (digits : List Char) : Nat :=
  digits.foldl (fun value digit => 10 * value + digitValue digit) 0

/-- Splits off the digits at the start of a text. -/
def splitDigits (text : List Char) : List Char × List Char :=
  (text.takeWhile Char.isDigit, text.dropWhile Char.isDigit)

/-- Splits off a point and the digits after it, if there is a point. -/
def splitFraction (text : List Char) : Option (List Char) × List Char :=
  match text with
  | '.' :: rest =>
    let (digits, rest) := splitDigits rest
    (some digits, rest)
  | _ => (none, text)

/-- Splits off a sign; without one the number is positive. -/
def splitSign (text : List Char) : Bool × List Char :=
  match text with
  | '-' :: rest => (true, rest)
  | '+' :: rest => (false, rest)
  | _ => (false, text)

/-- Splits off an exponent, if the text starts with an exponent mark; a mark without digits is
refused. -/
def splitExponent? (text : List Char) : Option (Option Int × List Char) :=
  match text with
  | mark :: rest =>
    if mark = 'e' || mark = 'E' then
      let (negative, rest) := splitSign rest
      let (digits, rest) := splitDigits rest
      let size : Int := digitsValue digits
      if digits.isEmpty then none
      else some (some (if negative then -size else size), rest)
    else
      some (none, text)
  | [] => some (none, text)

/-- The digits and the rest are together as long as the text. -/
theorem length_splitDigits (text : List Char) :
    (splitDigits text).1.length + (splitDigits text).2.length = text.length := by
  rw [← List.length_append, splitDigits, List.takeWhile_append_dropWhile]

/-- Splitting a fraction off leaves no more text than there was. -/
theorem length_splitFraction_le (text : List Char) :
    (splitFraction text).2.length ≤ text.length := by
  unfold splitFraction
  split
  · next rest =>
    have := length_splitDigits rest
    simp only [List.length_cons]
    omega
  · exact Nat.le_refl _

private theorem length_splitSign_le (text : List Char) :
    (splitSign text).2.length ≤ text.length := by
  unfold splitSign
  split <;> simp

/-- Splitting an exponent off leaves no more text than there was. -/
theorem length_splitExponent?_le {text rest : List Char} {exponent : Option Int}
    (h : splitExponent? text = some (exponent, rest)) : rest.length ≤ text.length := by
  unfold splitExponent? at h
  split at h
  · next mark tail =>
    have hs := length_splitSign_le tail
    have hd := length_splitDigits (splitSign tail).2
    grind
  · grind

/-- The value nearest to the numeral. Far beyond the range of the format the digits do not
matter, so the power of ten is never formed there. -/
def round (numeral : Numeral) : Binary64 :=
  let fraction := numeral.fraction.getD []
  let digits := digitsValue (numeral.whole ++ fraction)
  let exponent := numeral.exponent.getD 0 - fraction.length
  let leading := exponent + (Nat.repr digits).length
  if digits = 0 || leading < -400 then
    Binary64.zero numeral.negative
  else if 400 < leading then
    .infinite numeral.negative
  else
    let (numerator, denominator) := scaleRatio 10 digits 1 exponent
    Binary64.ofRatio numeral.negative numerator denominator

/-- The largest significand that is accumulated. -/
def significandLimit : Nat := Nat.pow 2 64 - 1

/-- Appends digits to a significand as long as it stays within the limit; gives the digits
that were not appended too. -/
def accumulate (significand : Nat) : List Char → Nat × List Char
  | [] => (significand, [])
  | digit :: rest =>
    let next := 10 * significand + digitValue digit
    if significandLimit < next then (significand, digit :: rest)
    else accumulate next rest

/-- The accumulating reading of the digits: a significand and its power of ten. -/
def significand (numeral : Numeral) : Nat × Int :=
  let (value, dropped) := accumulate 0 numeral.whole
  let fraction := numeral.fraction.getD []
  let (value, ignored) := accumulate value fraction
  (value, dropped.length - (fraction.length - ignored.length : Nat) + numeral.exponent.getD 0)

/-- A power of ten as a binary number. -/
def powerOfTen (power : Nat) : Binary64 :=
  Binary64.ofNat (Nat.pow 10 power)

/-- The largest power of ten that is scaled by at once. -/
def powerLimit : Nat := 308

/-- The accumulating reading of a numeral; there is none when the result is out of range. A
power of ten below the limit is divided off in two steps, and what is smaller still is
zero. -/
def scale? (numeral : Numeral) : Option Binary64 :=
  let (digits, exponent) := numeral.significand
  let value := Binary64.ofRatio numeral.negative digits 1
  let size := exponent.natAbs
  if digits = 0 then
    some value
  else if 0 ≤ exponent then
    if powerLimit < size then
      none
    else
      let product := value.mul (powerOfTen size)
      if product.isInfinite then none else some product
  else if size ≤ powerLimit then
    some (value.div (powerOfTen size))
  else if size ≤ 2 * powerLimit then
    some ((value.div (powerOfTen powerLimit)).div (powerOfTen (size - powerLimit)))
  else
    some (Binary64.zero numeral.negative)

end Numeral

/-- The value of a numeral that takes up the whole text. Either part of the digits may be
missing, but not both. -/
def Binary64.ofNumeral? (text : List Char) : Option Binary64 := do
  let (negative, text) := Numeral.splitSign text
  let (whole, text) := Numeral.splitDigits text
  let (fraction, text) := Numeral.splitFraction text
  let (exponent, text) ← Numeral.splitExponent? text
  if (whole ++ fraction.getD []).isEmpty || !text.isEmpty then
    none
  else
    some (Numeral.round { negative, whole, fraction, exponent })

/-- The value a text names: a numeral, or the name of an infinity or of no number with a sign,
in any letter case. -/
def Binary64.ofText? (text : String) : Option Binary64 :=
  let (negative, name) := Numeral.splitSign text.toList
  let name := String.ofList (name.map Char.toLower)
  if name = "inf" || name = "infinity" then
    some (.infinite negative)
  else if name = "nan" then
    some .nan
  else
    ofNumeral? text.toList

end StyleForest
