import FlatAsm.Formula.FloatText
import FlatAsm.Formula.Lists
import FlatAsm.Text.Directive

/-!
# Interpolation

A string can be filled with the texts of values.  Each percent sign is
followed by the letter of a conversion and takes one value; two of them stand
for a percent sign.  Every value has to be taken.
-/

namespace FlatAsm.Formula

namespace Value

mutual

/-- The text of a value as a formula would write it, given that of a list. -/
def shownWith (listText : Nat → List Value → Text) : Value → Text
  | .nothing => Text.ascii "None"
  | .bool true => Text.ascii "True"
  | .bool false => Text.ascii "False"
  | .integer value => Text.ofInt value
  | .float value => FloatingPoint.shortestText 0x65 value
  | .string text => Text.quoted text
  | .bytes values => 0x62 :: Text.quoted values
  | .tuple [element] =>
      0x28 :: element.shownWith listText ++ [0x2c, 0x29]
  | .tuple elements =>
      0x28 :: Text.join (Text.ascii ", ") (shownAllWith listText elements) ++
        [0x29]
  | .list number initial => listText number initial
  | .function name => Text.ascii "<built-in function " ++ name ++ [0x3e]

/-- The texts of values, given that of a list. -/
def shownAllWith (listText : Nat → List Value → Text) :
    List Value → List Text
  | [] => []
  | value :: rest =>
      value.shownWith listText :: shownAllWith listText rest

end

/--
The text of a list inside some enclosing ones.

A list that contains itself is cut short there.  The enclosing lists are all
different, so no more of them can follow than there are lists, which
`further` says.
-/
def listShown (lists : Lists) :
    Nat → List Nat → Nat → List Value → Text
  | 0, _, _, _ => Text.ascii "[...]"
  | further + 1, enclosing, number, initial =>
      if enclosing.contains number then Text.ascii "[...]"
      else
        let texts := shownAllWith
          (listShown lists further (number :: enclosing))
          (lists.elements number initial)
        0x5b :: Text.join (Text.ascii ", ") texts ++ [0x5d]

/-- The text of a value as a formula would write it. -/
def shown (lists : Lists) (value : Value) : Text :=
  value.shownWith (listShown lists (lists.made + 1) [])

/-- The integer part of a number. -/
def whole : Value → Computing Int
  | .integer value => .ok value
  | .float value =>
      match FloatingPoint.truncated? value with
      | some value => .ok value
      | none => failed
  | _ => failed

/-- The floating point number nearest to a number. -/
def asFloat : Value → Computing Float
  | .integer value => .ok (FloatingPoint.ofInteger value)
  | .float value => .ok value
  | _ => failed

/-- The character that a number or a string of one character stands for. -/
def asCharacter : Value → Computing Text
  | .integer code =>
      if code < 0 ∨ 0x10ffff < code then failed
      else .ok (Text.ofCharacter code.toNat)
  | .string text =>
      match Text.onlyCharacter? text with
      | some code => .ok (Text.ofCharacter code)
      | none => failed
  | _ => failed

end Value

/-- An integer in a base, with a minus sign if it is negative. -/
def digitsIn (base : Nat) (isUpper : Bool) (value : Int) : Text :=
  let digits := Text.Directive.digitsInBase base isUpper value.natAbs
  if value < 0 then 0x2d :: digits else digits

/-- How a value is turned into text. -/
inductive Conversion where
  /-- A string as it is, and any other value as a formula would write it. -/
  | plain
  | literal
  | integer (base : Nat) (isUpper : Bool)
  | scientific (letter : UInt8)
  | fixed
  | shortest (letter : UInt8)
  /-- A conversion that stands for itself instead of a finite number. -/
  | unshown
  | character
  deriving DecidableEq, Repr

namespace Conversion

/-- The conversions with their letters. -/
def lettered : List (UInt8 × Conversion) :=
  [(0x73, .plain), (0x72, .literal), (0x64, .integer 10 false),
    (0x69, .integer 10 false), (0x6f, .integer 8 false),
    (0x78, .integer 16 false), (0x58, .integer 16 true),
    (0x65, .scientific 0x65), (0x45, .scientific 0x45), (0x66, .fixed),
    (0x46, .unshown), (0x67, .shortest 0x65), (0x47, .shortest 0x45),
    (0x63, .character)]

/-- Turn a value into text. -/
def apply (lists : Lists) (conversion : Conversion) (value : Value) :
    Computing Text :=
  match conversion, value with
  | .plain, .string text => .ok text
  | .plain, _ | .literal, _ => .ok (value.shown lists)
  | .integer base isUpper, _ => do
      return digitsIn base isUpper (← value.whole)
  | .scientific letter, _ => do
      return FloatingPoint.scientificText letter (← value.asFloat)
  | .fixed, _ => do return FloatingPoint.fixedText (← value.asFloat)
  | .shortest letter, _ => do
      return FloatingPoint.shortestText letter (← value.asFloat)
  | .unshown, _ => do
      let number ← value.asFloat
      return if number.isFinite then Text.ascii "%F"
        else FloatingPoint.fixedText number
  | .character, _ => value.asCharacter

end Conversion

/--
Fill a string with the texts of values, onto the bytes before, held in
reverse.
-/
def interpolateOnto (lists : Lists) (reversed : Text) :
    Text → List Value → Computing Text
  | [], [] => .ok reversed.reverse
  | [], _ :: _ => failed
  | 0x25 :: 0x25 :: rest, values =>
      interpolateOnto lists (0x25 :: reversed) rest values
  | 0x25 :: letter :: rest, value :: values => do
      match Conversion.lettered.lookup letter with
      | none => failed
      | some conversion =>
          let text ← conversion.apply lists value
          interpolateOnto lists (text.reverseAux reversed) rest values
  | 0x25 :: _, _ => failed
  | byte :: rest, values => interpolateOnto lists (byte :: reversed) rest values

/-- Fill a string with the elements of a tuple, or with a single value. -/
def interpolate (lists : Lists) (text : Text) (value : Value) :
    Computing Text :=
  match value with
  | .tuple elements => interpolateOnto lists [] text elements
  | _ => interpolateOnto lists [] text [value]

end FlatAsm.Formula
