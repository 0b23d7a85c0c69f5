import FlatAsm.Text.Decimal
import FlatAsm.Text.Quoted

/-!
# Directives

A directive says how a number or a text is shown: in which base, with how
many digits, with which sign, and filled up to which width.  Decimal numbers
have their digits grouped unless the directive asks for a plain form.  They
form columns: a directive that says how many digits a decimal number has, but
not how wide it is, leaves it as wide as the decimal number before it.
-/

namespace FlatAsm.Text

/-- How far decimal numbers are filled up with spaces. -/
structure Column where
  width : Nat
  /-- Fill up on the right instead of the left. -/
  onRight : Bool
  deriving DecidableEq, Repr

namespace Column

/-- Fill a number up to the width of the column. -/
def pad (column : Column) (number : Text) : Text :=
  if column.onRight then padRight column.width number
  else padLeft column.width number

end Column

/-- How a value is to be shown. -/
structure Directive where
  /-- Fill up on the right instead of the left. -/
  minus : Bool
  /-- Show the sign of a positive number, and keep quoted text to ASCII. -/
  plus : Bool
  /-- Show the alternate form. -/
  sharp : Bool
  /-- Leave room for the sign of a positive number, or between bytes. -/
  space : Bool
  /-- Fill up with zeros instead of spaces. -/
  zero : Bool
  /-- Show the value as a literal. -/
  literal : Bool
  /-- The least number of characters. -/
  width : Option Nat
  /-- The least number of digits, or the largest number of characters. -/
  precision : Option Nat
  /-- The column of the decimal number before, if it is in one. -/
  previous : Option Column
  deriving DecidableEq, Repr

namespace Directive

/-- The directive without any flags. -/
def plain : Directive :=
  ⟨false, false, false, false, false, false, none, none, none⟩

/-- So many bytes to fill up with. -/
def filling (directive : Directive) (count : Nat) : Text :=
  List.replicate count (if directive.zero then 0x30 else 0x20)

/-- Fill up to the width. -/
def pad (directive : Directive) (text : Text) : Text :=
  match directive.width with
  | none => text
  | some width =>
      let fill := directive.filling (width - countCharacters 0 text)
      if directive.minus then text ++ fill else fill ++ text

/-- Fill up to the width with spaces. -/
def padWithSpaces (directive : Directive) (text : Text) : Text :=
  { directive with zero := false }.pad text

/-- What stands before the digits of a number. -/
def sign (directive : Directive) (value : Int) : Text :=
  if value < 0 then [0x2d]
  else if directive.plus then [0x2b]
  else if directive.space then [0x20]
  else []

/-- Put zeros before digits until there are enough of them. -/
def fillDigits (least : Nat) (digits : Text) : Text :=
  List.replicate (least - digits.length) 0x30 ++ digits

/-- Digits in a base of up to 16. -/
def digitsInBase (base : Nat) (isUpper : Bool) (value : Nat) : Text :=
  (Nat.toDigits base value).map fun digit =>
    (if isUpper then digit.toUpper else digit).toNat.toUInt8

/-- What the alternate form puts before the digits in a base. -/
def basePrefix (base : Nat) (isUpper : Bool) (digits : Text) : Text :=
  if base = 16 then if isUpper then [0x30, 0x58] else [0x30, 0x78]
  else if base = 8 ∧ digits.take 1 ≠ [0x30] then [0x30]
  else []

/-- How many digits a number in a base has at least. -/
def leastDigits (directive : Directive) (value : Int) : Nat :=
  match directive.precision, directive.width with
  | some precision, _ => precision
  | none, some width =>
      if directive.zero then width - (directive.sign value).length else 0
  | none, none => 0

/-- A number in a base of up to 16; zero to no digits is left out. -/
def inBase (directive : Directive) (base : Nat) (isUpper : Bool)
    (value : Int) : Text :=
  if directive.precision = some 0 ∧ value = 0 then
    directive.padWithSpaces []
  else
    let digits :=
      fillDigits (directive.leastDigits value)
        (digitsInBase base isUpper value.natAbs)
    let before :=
      if directive.sharp then basePrefix base isUpper digits else []
    directive.padWithSpaces (directive.sign value ++ before ++ digits)

/-- How many digits a decimal number has at least, counted in a byte. -/
def leastDecimals (directive : Directive) : Nat :=
  match directive.precision, directive.width with
  | some precision, _ => precision % 0x100
  | none, some width =>
      let room := if directive.plus || directive.space then 1 else 0
      if directive.zero ∧ 1 < width - room then (width - room) % 0x100 else 1
  | none, none => 1

/-- The column of a decimal number, its width counted in two bytes. -/
def column? (directive : Directive) : Option Column :=
  match directive.width, directive.precision with
  | some width, _ => some ⟨width % 0x10000, directive.minus⟩
  | none, some _ => directive.previous
  | none, none => none

/-- Does the directive leave decimal numbers ungrouped? -/
def isUngrouped (directive : Directive) : Bool :=
  directive.sharp || directive.literal

/-- A decimal number, with its digits grouped unless it is to be plain. -/
def decimal (directive : Directive) (value : Int) : Text :=
  if directive.isUngrouped then directive.inBase 10 false value
  else
    let digits := if value = 0 then [] else ofNat value.natAbs
    let number :=
      directive.sign value ++
        groupDigits (fillDigits directive.leastDecimals digits)
    match directive.column? with
    | none => number
    | some column => column.pad number

/-- The character with a number. -/
def character (directive : Directive) (code : Int) : Text :=
  directive.pad
    (ofCharacter (if code < 0 then replacement else code.toNat))

/-- Which characters stand for themselves between quotes. -/
def stands (directive : Directive) : Nat → Bool :=
  if directive.plus then isPlain else isPrintable

/-- The character with a number between quotes. -/
def quotedCharacter (directive : Directive) (code : Nat) : Text :=
  directive.pad (quotedCharacterBy directive.stands code)

/-- The number of a character, as code points are written. -/
def codePoint (directive : Directive) (value : Int) : Text :=
  let code := (value % 0x10000000000000000).toNat
  let digits :=
    fillDigits (max 4 (directive.precision.getD 0))
      (digitsInBase 16 true code)
  let after :=
    if directive.sharp && isPrintable code then
      [0x20, 0x27] ++ ofCharacter code ++ [0x27]
    else []
  directive.padWithSpaces (ascii "U+" ++ digits ++ after)

/-- Cut a text off after as many characters as the precision says. -/
def truncate (directive : Directive) (text : Text) : Text :=
  match directive.precision with
  | none => text
  | some count => takeCharacters count 0 text

/-- A text as it is. -/
def text (directive : Directive) (value : Text) : Text :=
  directive.pad (directive.truncate value)

/-- A text between quotes. -/
def quotedText (directive : Directive) (value : Text) : Text :=
  let shown := directive.truncate value
  directive.pad
    (if directive.sharp && fitsBackquotes 0 shown then
      0x60 :: shown ++ [0x60]
    else quotedBy directive.stands shown)

/-- The bytes of a text in hexadecimal. -/
def hexText (directive : Directive) (isUpper : Bool) (value : Text) :
    Text :=
  let bytes :=
    match directive.precision with
    | none => value
    | some count => value.take count
  let mark :=
    if directive.sharp then if isUpper then [0x30, 0x58] else [0x30, 0x78]
    else []
  let digits := bytes.map fun byte =>
    fillDigits 2 (digitsInBase 16 isUpper byte.toNat)
  directive.pad
    (if bytes.isEmpty then []
    else if directive.space then mark ++ join (0x20 :: mark) digits
    else mark ++ digits.flatten)

end Directive

end FlatAsm.Text
