/-!
# Binary numbers of 64 bits

The values of the binary interchange format of 64 bits as exact quantities: a significand
times a power of two, an infinity, or not a number. Every operation computes the exact
result as a ratio of natural numbers and rounds once, to nearest with ties to the even
significand.
-/

namespace StyleForest

/-- A value of the format; a finite one stands for `± significand · 2 ^ exponent`. -/
inductive Binary64 where
  | nan
  | infinite (negative : Bool)
  | finite (negative : Bool) (significand : Nat) (exponent : Int)
  deriving DecidableEq, Repr

/-- The quotient rounded to nearest, a tie going to the even neighbour. -/
def roundDiv (numerator denominator : Nat) : Nat :=
  let quotient := numerator / denominator
  let twice := 2 * (numerator % denominator)
  if denominator < twice || (twice == denominator && quotient % 2 == 1) then
    quotient + 1
  else
    quotient

/-- The ratio multiplied by a power of the base, as a numerator and a denominator. -/
def scaleRatio (base numerator denominator : Nat) (power : Int) : Nat × Nat :=
  if 0 ≤ power then
    (numerator * Nat.pow base power.toNat, denominator)
  else
    (numerator, denominator * Nat.pow base (-power).toNat)

namespace Binary64

/-- The exponent of the smallest significands. -/
def minExponent : Int := -1074

/-- The exponent of the largest significands. -/
def maxExponent : Int := 971

/-- Every significand is below this bound, and at least half of it unless the exponent is the
least one. -/
def significandBound : Nat := Nat.pow 2 53

/-- Zero with a sign. -/
def zero (negative : Bool) : Binary64 :=
  .finite negative 0 minExponent

/-- The exponent of the power of two at or below a positive ratio. -/
def leadingExponent (numerator denominator : Nat) : Int :=
  let guess := (numerator.log2 : Int) - denominator.log2
  let (scaled, unit) := scaleRatio 2 numerator denominator (-guess)
  if unit ≤ scaled then guess else guess - 1

/-- The value nearest to a ratio. -/
def ofRatio (negative : Bool) (numerator denominator : Nat) : Binary64 :=
  if numerator = 0 then
    zero negative
  else
    let exponent := max (leadingExponent numerator denominator - 52) minExponent
    let (scaled, unit) := scaleRatio 2 numerator denominator (-exponent)
    let significand := roundDiv scaled unit
    let (significand, exponent) :=
      if significand = significandBound then (significand / 2, exponent + 1)
      else (significand, exponent)
    if maxExponent < exponent then .infinite negative
    else .finite negative significand exponent

/-- The value nearest to a natural number. -/
def ofNat (n : Nat) : Binary64 :=
  ofRatio false n 1

/-- The value nearest to a ratio times a power of two. -/
def ofScaled (negative : Bool) (numerator denominator : Nat) (power : Int) : Binary64 :=
  let (numerator, denominator) := scaleRatio 2 numerator denominator power
  ofRatio negative numerator denominator

/-- The sign of the value is the negative one. -/
def isNegative : Binary64 → Bool
  | .nan => false
  | .infinite negative => negative
  | .finite negative _ _ => negative

/-- The value is an infinity. -/
def isInfinite : Binary64 → Bool
  | .infinite _ => true
  | _ => false

/-- The value is zero, of either sign. -/
def isZero : Binary64 → Bool
  | .finite _ 0 _ => true
  | _ => false

/-- The value with the other sign. -/
def neg : Binary64 → Binary64
  | .nan => .nan
  | .infinite negative => .infinite !negative
  | .finite negative significand exponent => .finite (!negative) significand exponent

/-- The rounded product. -/
def mul : Binary64 → Binary64 → Binary64
  | .finite s m p, .finite t n q => ofScaled (s != t) (m * n) 1 (p + q)
  | .nan, _ => .nan
  | _, .nan => .nan
  | left, right =>
    if left.isZero || right.isZero then .nan
    else .infinite (left.isNegative != right.isNegative)

/-- The rounded quotient. -/
def div : Binary64 → Binary64 → Binary64
  | .finite s m p, .finite t n q =>
    if n ≠ 0 then ofScaled (s != t) m n (p - q)
    else if m ≠ 0 then .infinite (s != t)
    else .nan
  | .nan, _ => .nan
  | _, .nan => .nan
  | .infinite _, .infinite _ => .nan
  | .infinite s, right => .infinite (s != right.isNegative)
  | left, .infinite t => zero (left.isNegative != t)

/-- The natural number a value stands for, if it is one. Zero of either sign is zero. -/
def toNat? : Binary64 → Option Nat
  | .finite negative significand exponent =>
    if significand = 0 then
      some 0
    else if negative then
      none
    else if 0 ≤ exponent then
      some (significand * Nat.pow 2 exponent.toNat)
    else if significand % Nat.pow 2 (-exponent).toNat = 0 then
      some (significand / Nat.pow 2 (-exponent).toNat)
    else
      none
  | _ => none

end Binary64

end StyleForest
