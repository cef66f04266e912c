import StyleForest.Number.Binary64

/-!
# Decimal texts of binary numbers

A finite binary number is written with the fewest digits that read back to it, and among
those with the ones nearest to it. The real numbers that read back to a value form an
interval; the search goes from coarse decimal grids to finer ones and takes the first grid
on which one of the two neighbours of the value lies in the interval. How the digits are
laid out is the choice of a format.
-/

namespace StyleForest

/-- A decimal quantity, `digits · 10 ^ exponent`. -/
structure Decimal where
  digits : Nat
  exponent : Int
  deriving DecidableEq, Repr

/-- The choices a number format makes. -/
structure DecimalFormat where
  /-- The exponents of the first digit that are written without an exponent mark, from the
  first to the second; all of them if there is no such range. -/
  positional : Option (Int × Int)
  /-- A whole number is written with a point and a zero. -/
  keepsPoint : Bool
  /-- Of two digits equally near, the greater is taken, not the even one. -/
  tiesUp : Bool

namespace Decimal

/-- The nearest of the two neighbours of `significand · 2 ^ exponent` on the grid of multiples
of `10 ^ power` that read back to it, as a multiple of the grid. -/
def onGrid? (tiesUp : Bool) (significand : Nat) (exponent power : Int) : Option Nat :=
  let (numerator, denominator) := scaleRatio 2 1 1 (exponent - 2)
  let (unit, step) := scaleRatio 10 numerator denominator (-power)
  let value := 4 * significand * unit
  let narrow := significand = Nat.pow 2 52 ∧ Binary64.minExponent < exponent
  let low := (4 * significand - if narrow then 1 else 2) * unit
  let high := (4 * significand + 2) * unit
  let closed := significand % 2 == 0
  let below := value / step
  let lowHit := if closed then low ≤ below * step else low < below * step
  let highHit := if closed then (below + 1) * step ≤ high else (below + 1) * step < high
  let down := value - below * step
  let up := (below + 1) * step - value
  if lowHit then
    if highHit && (up < down || (up == down && (tiesUp || below % 2 == 1))) then some (below + 1)
    else some below
  else if highHit then
    some (below + 1)
  else
    none

/-- The decimal expansion that is exactly `significand · 2 ^ exponent`. -/
def exact (significand : Nat) (exponent : Int) : Decimal :=
  if 0 ≤ exponent then ⟨significand * Nat.pow 2 exponent.toNat, 0⟩
  else ⟨significand * Nat.pow 5 (-exponent).toNat, exponent⟩

/-- Tries grids from a coarse one down, and is exact when the count runs out. -/
def search (tiesUp : Bool) (significand : Nat) (exponent : Int) : Nat → Int → Decimal
  | 0, _ => exact significand exponent
  | count + 1, power =>
    match onGrid? tiesUp significand exponent power with
    | some digits => ⟨digits, power⟩
    | none => search tiesUp significand exponent count (power - 1)

/-- The shortest decimal that reads back to `significand · 2 ^ exponent`. -/
def shortest (tiesUp : Bool) (significand : Nat) (exponent : Int) : Decimal :=
  if significand = 0 then
    ⟨0, 0⟩
  else
    let (numerator, denominator) := scaleRatio 2 significand 1 exponent
    let top := (Nat.repr (numerator / denominator)).length
    search tiesUp significand exponent (top + (-exponent).toNat + 1) top

/-- Digits with a point before the last `places` of them. -/
def withPoint (digits : List Char) (places : Nat) : List Char :=
  let whole := digits.length - places
  digits.take whole ++ '.' :: digits.drop whole

/-- The text of a decimal without an exponent mark. -/
def positionalText (keepsPoint : Bool) (decimal : Decimal) : List Char :=
  let digits := (Nat.repr decimal.digits).toList
  if 0 ≤ decimal.exponent then
    digits ++ List.replicate decimal.exponent.toNat '0' ++ if keepsPoint then ['.', '0'] else []
  else
    let places := (-decimal.exponent).toNat
    withPoint (List.replicate (places + 1 - digits.length) '0' ++ digits) places

/-- The text of a decimal with one digit before the point and an exponent that always has a
sign. -/
def scientificText (decimal : Decimal) (leading : Int) : List Char :=
  let digits := (Nat.repr decimal.digits).toList
  let mantissa := if digits.length = 1 then digits else withPoint digits (digits.length - 1)
  mantissa ++ 'e' :: (if leading < 0 then '-' else '+') :: (Nat.repr leading.natAbs).toList

/-- The text of a decimal in a format. -/
def render (format : DecimalFormat) (decimal : Decimal) : List Char :=
  let leading := decimal.exponent + (Nat.repr decimal.digits).length - 1
  match format.positional with
  | none => positionalText format.keepsPoint decimal
  | some (lowest, highest) =>
    if lowest ≤ leading && leading ≤ highest then positionalText format.keepsPoint decimal
    else scientificText decimal leading

end Decimal

/-- The text of a binary number in a format. -/
def Binary64.render (format : DecimalFormat) : Binary64 → String
  | .nan => "NaN"
  | .infinite negative => if negative then "-inf" else "inf"
  | .finite negative significand exponent =>
    let decimal := Decimal.shortest format.tiesUp significand exponent
    String.ofList ((if negative then ['-'] else []) ++ decimal.render format)

end StyleForest
