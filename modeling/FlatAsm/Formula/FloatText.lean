import FlatAsm.Formula.FloatingPoint
import FlatAsm.Text.Decimal

/-!
# Floating point numbers in decimal

A number is shown with a fixed number of digits, or with the fewest that read
back as the same number.  Of several shortest forms the one nearest to the
number is taken, and halfway between two of them the even one.
-/

namespace FlatAsm.Formula.FloatingPoint

/-- A quotient divided by a power of ten, as numerator and denominator. -/
def scaledByTen (numerator denominator : Nat) (place : Int) : Nat × Nat :=
  if 0 ≤ place then (numerator, denominator * Nat.pow 10 place.toNat)
  else (numerator * Nat.pow 10 (-place).toNat, denominator)

namespace Parts

/-- The magnitude of a number as numerator and denominator. -/
def magnitude (number : Parts) : Nat × Nat :=
  if 0 ≤ number.exponent then
    (number.significand <<< number.exponent.toNat, 1)
  else (number.significand, 1 <<< (-number.exponent).toNat)

/-- The power of ten in which the first digit of a number is counted. -/
def leadingPlace (number : Parts) : Int :=
  let (numerator, denominator) := number.magnitude
  let estimate : Int :=
    (Text.ofNat numerator).length - (Text.ofNat denominator).length
  let scaled := scaledByTen numerator denominator estimate
  if scaled.2 ≤ scaled.1 then estimate else estimate - 1

/-- How often a power of ten goes into a number, rounded. -/
def roundedAt (number : Parts) (place : Int) : Nat :=
  let (numerator, denominator) := number.magnitude
  let scaled := scaledByTen numerator denominator place
  roundedQuotient scaled.1 scaled.2

/-- How often a power of ten goes into a number as a whole. -/
def wholeAt (number : Parts) (place : Int) : Nat :=
  let (numerator, denominator) := number.magnitude
  let scaled := scaledByTen numerator denominator place
  scaled.1 / scaled.2

/-- Is the number the nearest one to so many times a power of ten? -/
def isReadFrom (number : Parts) (count : Nat) (place : Int) : Bool :=
  let (numerator, denominator) := number.magnitude
  let scaled := scaledByTen count 1 (-place)
  nearestBits scaled.1 scaled.2 = nearestBits numerator denominator

end Parts

/-- Decimal digits, the last of which is counted in a power of ten. -/
structure Digits where
  digits : Text
  place : Int
  deriving DecidableEq, Repr

namespace Digits

/-- The digits of a multiple of a power of ten, without zeros at the end. -/
def ofMultiple (count : Nat) (place : Int) : Digits :=
  let digits := Text.ofNat count
  let zeros := (digits.reverse.takeWhile (· == 0x30)).length
  ⟨digits.take (digits.length - zeros), place + zeros⟩

/-- The power of ten in which the first digit is counted. -/
def leadingPlace (number : Digits) : Int :=
  number.place + number.digits.length - 1

/--
The fewest digits that read back as a number, no less than `size` of them.

Seventeen digits are always enough.
-/
def shortestFrom (number : Parts) (size : Nat) : Nat → Digits
  | 0 =>
      let place := number.leadingPlace - 16
      ofMultiple (number.roundedAt place) place
  | further + 1 =>
      let place := number.leadingPlace - size + 1
      let whole := number.wholeAt place
      let counts := [number.roundedAt place, whole, whole + 1]
      match counts.find? (number.isReadFrom · place) with
      | some count => ofMultiple count place
      | none => shortestFrom number (size + 1) further

/-- The fewest digits that read back as a number. -/
def shortest (number : Parts) : Digits :=
  shortestFrom number 1 16

/-- So many zeros. -/
def zeros (count : Int) : Text :=
  List.replicate count.toNat 0x30

/-- Digits with a point where it belongs, and at least one digit after it. -/
def positional (number : Digits) : Text :=
  let before := number.leadingPlace + 1
  if before ≤ 0 then
    0x30 :: 0x2e :: zeros (-before) ++ number.digits
  else if 0 ≤ number.place then
    number.digits ++ zeros number.place ++ [0x2e, 0x30]
  else
    number.digits.take before.toNat ++
      0x2e :: number.digits.drop before.toNat

/-- A power of ten after a letter, with a sign and at least two digits. -/
def exponentText (letter : UInt8) (exponent : Int) : Text :=
  let digits := Text.ofNat exponent.natAbs
  letter :: (if exponent < 0 then 0x2d else 0x2b) ::
    (zeros (2 - digits.length) ++ digits)

/-- Digits with a point after the first one, and a power of ten. -/
def scientific (letter : UInt8) (number : Digits) : Text :=
  let fraction := number.digits.drop 1
  number.digits.take 1 ++
    (if fraction = [] then [] else 0x2e :: fraction) ++
    exponentText letter number.leadingPlace

end Digits

/-- A number with the given text of its magnitude, unless it is not finite. -/
def withSign (text : Parts → Text) (value : Float) : Text :=
  if value.isFinite then
    let number := parts value
    if number.negative then 0x2d :: text number else text number
  else if value.isInf then
    if value < 0 then Text.ascii "-inf" else Text.ascii "+inf"
  else Text.ascii "nan"

/--
The shortest text of a number that shows it to be floating point.

Numbers far from one are shown with a power of ten.
-/
def shortestText (letter : UInt8) : Float → Text :=
  withSign fun number =>
    if number.significand = 0 then Text.ascii "0.0"
    else
      let digits := Digits.shortest number
      if digits.leadingPlace < -4 ∨ 6 ≤ digits.leadingPlace then
        digits.scientific letter
      else digits.positional

/-- A number with six digits after the point. -/
def fixedText : Float → Text :=
  withSign fun number =>
    let millionths := number.roundedAt (-6)
    let fraction := Text.ofNat (millionths % 1000000)
    Text.ofNat (millionths / 1000000) ++
      0x2e :: Digits.zeros (6 - fraction.length) ++ fraction

/-- A number with a power of ten and six digits after the point. -/
def scientificText (letter : UInt8) : Float → Text :=
  withSign fun number =>
    if number.significand = 0 then
      Text.ascii "0.000000" ++ Digits.exponentText letter 0
    else
      let place := number.leadingPlace - 6
      let count := number.roundedAt place
      let digits : Digits :=
        if count < 10000000 then ⟨Text.ofNat count, place⟩
        else ⟨Text.ofNat (count / 10), place + 1⟩
      digits.scientific letter

end FlatAsm.Formula.FloatingPoint
