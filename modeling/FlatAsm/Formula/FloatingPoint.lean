/-!
# Floating point numbers

A floating point number of 64 bits is a significand of at most 53 bits times
a power of two.  Literals, conversions, comparisons and remainders are
computed on exact values, and a result is rounded once: to the nearest number
and, halfway between two of them, to the one with the even significand.
-/

namespace FlatAsm.Formula.FloatingPoint

/-- A quotient of two numbers, rounded to the nearest; a tie goes to even. -/
def roundedQuotient (numerator denominator : Nat) : Nat :=
  let quotient := numerator / denominator
  let twice := 2 * (numerator % denominator)
  if denominator < twice ∨ (twice = denominator ∧ quotient % 2 = 1) then
    quotient + 1
  else quotient

/-- A quotient divided by a power of two, as numerator and denominator. -/
def scaledDown (numerator denominator : Nat) (exponent : Int) : Nat × Nat :=
  if 0 ≤ exponent then (numerator, denominator <<< exponent.toNat)
  else (numerator <<< (-exponent).toNat, denominator)

/-- The exponent of the smallest significand. -/
def leastExponent : Int := -1074

/-- The exponent that gives the quotient of two numbers 53 bits. -/
def exponentOf (numerator denominator : Nat) : Int :=
  let estimate : Int := numerator.log2 - denominator.log2 - 53
  let scaled := scaledDown numerator denominator estimate
  let exponent :=
    if scaled.1 / scaled.2 < 0x20000000000000 then estimate
    else estimate + 1
  max exponent leastExponent

/-- The bits of the infinite number. -/
def infinityBits : Nat := 0x7ff0000000000000

/--
The bits of the number nearest to a quotient.

A significand that rounding makes too long carries into the exponent, and
what is too large becomes infinite.
-/
def nearestBits (numerator denominator : Nat) : Nat :=
  if numerator = 0 then 0
  else
    let exponent := exponentOf numerator denominator
    let scaled := scaledDown numerator denominator exponent
    min infinityBits
      ((exponent - leastExponent).toNat * 0x10000000000000 +
        roundedQuotient scaled.1 scaled.2)

/-- The bit that makes a number negative. -/
def signBit : Nat := 0x8000000000000000

/-- The number nearest to a quotient with a sign. -/
def nearest (negative : Bool) (numerator denominator : Nat) : Float :=
  let bits := nearestBits numerator denominator
  Float.ofBits (if negative then bits + signBit else bits).toUInt64

/-- The number nearest to an integer; one too large is infinite. -/
def ofInteger (value : Int) : Float :=
  nearest (value < 0) value.natAbs 1

/-- The number nearest to `digits · 10 ^ exponent`. -/
def ofDecimal (digits : Nat) (exponent : Int) : Float :=
  if 0 ≤ exponent then nearest false (digits * Nat.pow 10 exponent.toNat) 1
  else nearest false digits (Nat.pow 10 (-exponent).toNat)

/-- A finite number taken apart: `± significand · 2 ^ exponent`. -/
structure Parts where
  negative : Bool
  significand : Nat
  exponent : Int
  deriving DecidableEq, Repr

/-- Take a finite number apart. -/
def parts (value : Float) : Parts :=
  let bits := value.toBits.toNat
  let field := bits % signBit / 0x10000000000000
  let fraction := bits % 0x10000000000000
  let negative := decide (signBit ≤ bits)
  if field = 0 then ⟨negative, fraction, leastExponent⟩
  else
    ⟨negative, 0x10000000000000 + fraction, leastExponent + (field - 1)⟩

namespace Parts

/-- The integer that the parts make at another, smaller exponent. -/
def atExponent (number : Parts) (exponent : Int) : Int :=
  let magnitude : Int :=
    number.significand <<< (number.exponent - exponent).toNat
  if number.negative then -magnitude else magnitude

/-- The integer part of a number. -/
def truncated (number : Parts) : Int :=
  let magnitude : Int :=
    if 0 ≤ number.exponent then
      number.significand <<< number.exponent.toNat
    else number.significand >>> (-number.exponent).toNat
  if number.negative then -magnitude else magnitude

end Parts

/-- The integer part of a number, unless it is not finite. -/
def truncated? (value : Float) : Option Int :=
  if value.isFinite then some (parts value).truncated else none

/--
The order of two numbers.

What is not a number counts as equal to itself and as larger than every
number.
-/
def order (left right : Float) : Ordering :=
  if left < right then .lt
  else if right < left then .gt
  else if left == right then .eq
  else if left == left then .lt
  else if right == right then .gt
  else .eq

/-- The order of an integer and a number, by their exact values. -/
def orderOfInteger (left : Int) (right : Float) : Ordering :=
  if right.isFinite then
    let number := parts right
    let exponent := min 0 number.exponent
    compare (left * (1 <<< (-exponent).toNat : Nat))
      (number.atExponent exponent)
  else if right < 0 then .gt
  else .lt

/-- What the division toward zero of two finite numbers leaves over. -/
def exactRemainder (left right : Parts) : Float :=
  let exponent := min left.exponent right.exponent
  let rest :=
    (left.atExponent exponent).natAbs % (right.atExponent exponent).natAbs
  if 0 ≤ exponent then nearest left.negative (rest <<< exponent.toNat) 1
  else nearest left.negative rest (1 <<< (-exponent).toNat)

/-- What the division toward zero of two numbers leaves over. -/
def truncatedRemainder (left right : Float) : Float :=
  if left.isFinite ∧ right.isFinite then
    exactRemainder (parts left) (parts right)
  else if left.isFinite ∧ right.isInf then left
  else 0 / 0

/-- The remainder with the sign of the divisor. -/
def remainder (left right : Float) : Float :=
  let rest := truncatedRemainder left right
  if (left < 0) != (right < 0) && rest != 0 then rest + right else rest

end FlatAsm.Formula.FloatingPoint
