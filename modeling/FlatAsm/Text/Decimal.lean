import FlatAsm.Text

/-!
# Decimal numbers

Numbers are written plainly in listings and expressions, and with a comma
between groups of three digits in messages.
-/

namespace FlatAsm.Text

/-- The decimal digits of a number, without leading zeros. -/
def ofNat (number : Nat) : Text :=
  (Nat.toDigits 10 number).map fun digit => digit.toNat.toUInt8

/-- An integer in decimal, with a minus sign if it is negative. -/
def ofInt (number : Int) : Text :=
  if number < 0 then 0x2d :: ofNat number.natAbs else ofNat number.natAbs

/-- Put a comma before every group of three digits, counted from the right. -/
def groupDigits : Text → Text
  | [] => []
  | digit :: rest =>
      if rest.length % 3 = 0 ∧ rest ≠ [] then
        digit :: 0x2c :: groupDigits rest
      else digit :: groupDigits rest

/-- A decimal digit. -/
def isDigit (byte : UInt8) : Bool :=
  0x30 ≤ byte && byte ≤ 0x39

/-- The number a digit stands for. -/
def digitValue (byte : UInt8) : Nat :=
  byte.toNat - 0x30

/-- The value of a run of digits, provided it is below the limit. -/
def decimalBelow? (limit : Nat) (digits : Text) : Option Nat :=
  digits.foldlM
    (fun value digit =>
      let next := 10 * value + digitValue digit
      if next < limit then some next else none)
    0

end FlatAsm.Text
