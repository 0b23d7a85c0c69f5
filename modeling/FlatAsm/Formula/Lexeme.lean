import FlatAsm.Error
import FlatAsm.Formula.FloatingPoint
import FlatAsm.Text.Decimal
import FlatAsm.Text.Letter
import FlatAsm.Text.Utf8

/-!
# Lexemes of formulas

Formulas are a small language of their own, with integers of any size,
floating point numbers, strings, names and operators.  Line ends count only
outside brackets, and a comment extends to the end of its line.
-/

namespace FlatAsm.Formula

/-- A lexical element of a formula. -/
inductive Lexeme where
  | integer (value : Nat)
  | float (value : Float)
  | string (text : Text)
  | bytes (values : Text)
  | name (text : Text)
  /-- An operator, a bracket or a reserved word. -/
  | mark (spelling : String)
  | lineEnd
  deriving Repr

/-- A lexeme and how many bytes it takes after its first one. -/
structure Lexed where
  lexeme : Lexeme
  further : Nat

/-- Reading lexemes either succeeds or shows the formula to be malformed. -/
abbrev Lexing (α : Type) := Except FormulaStage α

/-- The formula is not well formed. -/
def malformed {α : Type} : Lexing α :=
  .error .grammar

/-- The bytes that end a line. -/
def isLineEnd (byte : UInt8) : Bool :=
  byte = 0x0a || byte = 0x0d

/-- The bytes between lexemes. -/
def isSpace (byte : UInt8) : Bool :=
  byte = 0x20 || byte = 0x09

/-- Words that are not names. -/
def reservedWords : List String :=
  ["and", "break", "continue", "def", "elif", "else", "for", "if", "in",
    "lambda", "load", "not", "or", "pass", "return", "while",
    "as", "async", "await", "class", "del", "except", "finally", "from",
    "global", "import", "is", "nonlocal", "raise", "try", "with", "yield"]

/-- The operators and brackets; of two that match, the longer comes first. -/
def operators : List String :=
  ["<<=", ">>=", "//=", "<<", ">>", "//", "**", "==", "!=", "<=", ">=",
    "+=", "-=", "*=", "/=", "%=", "&=", "|=", "^=",
    "=", "<", ">", "+", "-", "*", "/", "%", "&", "|", "^", "~",
    ":", ";", ",", ".", "(", ")", "[", "]", "\x7b", "\x7d"]

/-- A character that may start a name. -/
def isNameStart (code : Nat) : Bool :=
  code = 0x5f || (0x61 ≤ code && code ≤ 0x7a) ||
    (0x41 ≤ code && code ≤ 0x5a) || (0x80 ≤ code && Text.isLetter code)

/-- A character that may stand in a name. -/
def isNameCharacter (code : Nat) : Bool :=
  isNameStart code || (0x30 ≤ code && code ≤ 0x39)

/--
How many bytes at the front of a text belong to a name.

The first `skip` bytes belong to a character that is known to do so.
-/
def nameSize (size skip : Nat) : Text → Nat
  | [] => size
  | byte :: rest =>
      match skip with
      | more + 1 => nameSize (size + 1) more rest
      | 0 =>
          let character := Text.firstCharacter (byte :: rest)
          if isNameCharacter character.code then
            nameSize (size + 1) (character.size - 1) rest
          else size

/-- A name or a reserved word. -/
def word (text : Text) : Lexed :=
  let size := nameSize 0 0 text
  let spelling := text.take size
  match reservedWords.find? fun reserved =>
      Text.ascii reserved == spelling with
  | some reserved => ⟨.mark reserved, size - 1⟩
  | none => ⟨.name spelling, size - 1⟩

/-- The longest operator at the front of a text. -/
def operator (text : Text) : Lexing Lexed :=
  match operators.find? fun spelling =>
      (Text.ascii spelling).isPrefixOf text with
  | some spelling => .ok ⟨.mark spelling, spelling.length - 1⟩
  | none => malformed

/-- The value of a digit in a base of up to 36, or of no digit. -/
def digitIn? (base : Nat) (byte : UInt8) : Option Nat :=
  let value :=
    if 0x30 ≤ byte ∧ byte ≤ 0x39 then byte.toNat - 0x30
    else if 0x61 ≤ byte ∧ byte ≤ 0x7a then byte.toNat - 0x57
    else if 0x41 ≤ byte ∧ byte ≤ 0x5a then byte.toNat - 0x37
    else base
  if value < base then some value else none

/-- Is the byte a digit in the base? -/
def isDigitIn (base : Nat) (byte : UInt8) : Bool :=
  (digitIn? base byte).isSome

/-- The value of digits in a base. -/
def digitsValue (base : Nat) (digits : Text) : Nat :=
  digits.foldl
    (fun value digit => base * value + (digitIn? base digit).getD 0) 0

/-- The digits of a base at the front of a text. -/
def digitsOf (base : Nat) (text : Text) : Text :=
  text.takeWhile (isDigitIn base)

/--
An integer after a prefix of two bytes that gives its base.

Outside base 16 it has to fit a signed word.
-/
def prefixedInteger (base : Nat) (text : Text) : Lexing Lexed :=
  let digits := digitsOf base text
  let value := digitsValue base digits
  if digits = [] ∨ (base ≠ 16 ∧ 0x8000000000000000 ≤ value) then malformed
  else .ok ⟨.integer value, digits.length + 1⟩

/-- The exponent part of a number: its value and its size in bytes. -/
def exponentPart (text : Text) : Lexing (Int × Nat) :=
  match text with
  | mark :: rest =>
      if mark = 0x65 ∨ mark = 0x45 then
        let signed := rest.take 1 = [0x2b] ∨ rest.take 1 = [0x2d]
        let digits := digitsOf 10 (if signed then rest.drop 1 else rest)
        let value : Int := digitsValue 10 digits
        if digits = [] then malformed
        else
          .ok (if rest.take 1 = [0x2d] then -value else value,
            digits.length + if signed then 2 else 1)
      else .ok (0, 0)
  | [] => .ok (0, 0)

/--
The number with these digits times a power of ten, unless it is too large.

Far outside the range of floating point numbers nothing is computed.
-/
def floatValue? (digits : Text) (exponent : Int) : Option Float :=
  let size : Int := (digits.dropWhile (· == 0x30)).length
  if size = 0 ∨ size + exponent < -330 then some 0
  else if 310 < size + exponent then none
  else
    let value := FloatingPoint.ofDecimal (digitsValue 10 digits) exponent
    if value.isFinite then some value else none

/-- A number in base 10. -/
def decimalNumber (text : Text) : Lexing Lexed := do
  let whole := digitsOf 10 text
  let afterWhole := text.drop whole.length
  let pointed := afterWhole.take 1 = [0x2e]
  let fraction := if pointed then digitsOf 10 (afterWhole.drop 1) else []
  let fractionSize := if pointed then fraction.length + 1 else 0
  let (exponent, exponentSize) ← exponentPart (afterWhole.drop fractionSize)
  if fractionSize = 0 ∧ exponentSize = 0 then
    if whole.take 1 = [0x30] ∧ whole.any (· != 0x30) then malformed
    else .ok ⟨.integer (digitsValue 10 whole), whole.length - 1⟩
  else
    match floatValue? (whole ++ fraction) (exponent - fraction.length) with
    | none => malformed
    | some value =>
        .ok ⟨.float value,
          whole.length + fractionSize + exponentSize - 1⟩

/-- A number, in the base that its first bytes say. -/
def number (text : Text) : Lexing Lexed :=
  match text with
  | 0x30 :: letter :: rest =>
      if letter = 0x78 ∨ letter = 0x58 then prefixedInteger 16 rest
      else if letter = 0x6f ∨ letter = 0x4f then prefixedInteger 8 rest
      else if letter = 0x62 ∨ letter = 0x42 then prefixedInteger 2 rest
      else decimalNumber text
  | _ => decimalNumber text

/-- The byte that a backslash and a letter stand for. -/
def escapedByte? (letter : UInt8) : Option UInt8 :=
  [(0x61, 0x07), (0x62, 0x08), (0x66, 0x0c), (0x6e, 0x0a), (0x72, 0x0d),
    (0x74, 0x09), (0x76, 0x0b), (0x5c, 0x5c), (0x27, 0x27),
    (0x22, 0x22)].lookup letter

/-- How a literal in quotes is to be read. -/
structure Quoting where
  /-- A backslash stands for itself. -/
  isRaw : Bool
  /-- The literal is a sequence of bytes rather than a string. -/
  isBytes : Bool
  deriving DecidableEq, Repr

namespace Quoting

/-- The byte that its number stands for; those of a string are ASCII. -/
def byteOf (quoting : Quoting) (code : Nat) : Lexing Text :=
  if code < 0x80 ∨ (quoting.isBytes ∧ code < 0x100) then .ok [code.toUInt8]
  else malformed

/-- The value of exactly so many hexadecimal digits at the front. -/
def hexValue (size : Nat) (text : Text) : Lexing Nat :=
  let digits := (text.take size).takeWhile (isDigitIn 16)
  if digits.length = size then .ok (digitsValue 16 digits) else malformed

/-- The bytes of the character with a number, which has to exist. -/
def characterOf (code : Nat) : Lexing Text :=
  if Text.isScalar code then .ok (Text.ofCharacter code) else malformed

/-- What the text after a backslash stands for, and its size in bytes. -/
def escape (quoting : Quoting) (text : Text) : Lexing (Text × Nat) := do
  match text with
  | [] => malformed
  | letter :: after =>
      if let some byte := escapedByte? letter then return ([byte], 1)
      else if letter = 0x0a then return ([], 1)
      else if isDigitIn 8 letter then
        let digits := (text.take 3).takeWhile (isDigitIn 8)
        return (← quoting.byteOf (digitsValue 8 digits), digits.length)
      else if letter = 0x78 then
        return (← quoting.byteOf (← hexValue 2 after), 3)
      else if letter = 0x75 then
        return (← characterOf (← hexValue 4 after), 5)
      else if letter = 0x55 then
        return (← characterOf (← hexValue 8 after), 9)
      else malformed

/-- Replace escape sequences, onto the bytes before, held in reverse. -/
def unescapeOnto (quoting : Quoting) (reversed : Text) (text : Text) :
    Lexing Text :=
  match text with
  | [] => .ok reversed.reverse
  | byte :: rest =>
      if byte = 0x5c ∧ !quoting.isRaw then
        match quoting.escape rest with
        | .error stage => .error stage
        | .ok (bytes, size) =>
            quoting.unescapeOnto (bytes.reverseAux reversed)
              (rest.drop size)
      else quoting.unescapeOnto (byte :: reversed) rest
termination_by text.length
decreasing_by
  all_goals
    simp only [List.length_cons, List.length_drop]
    omega

/-- The lexeme for what stands between the quotes. -/
def lexeme (quoting : Quoting) (body : Text) : Lexing Lexeme := do
  let bytes ← quoting.unescapeOnto [] body
  return if quoting.isBytes then .bytes bytes else .string bytes

end Quoting

/--
What stands between the quotes of a literal, and its size in bytes together
with the closing quotes.

`size` bytes have been passed, which have left `reversed`, and the next
`skip` ones belong to a character that has been read.  The literal is closed
by `closing` quotes in a row, of which `seen` have been met; only a literal
with several of them goes on over line ends.  A line end is read as a line
feed, and what is not well formed as the replacement character.
-/
def bodyOnto (quote : UInt8) (closing seen : Nat) (escaped : Bool)
    (reversed : Text) (size skip : Nat) : Text → Lexing (Text × Nat)
  | [] => malformed
  | byte :: rest =>
      match skip with
      | more + 1 =>
          bodyOnto quote closing seen escaped reversed (size + 1) more rest
      | 0 =>
          if byte = quote ∧ !escaped then
            if seen + 1 = closing then
              .ok ((reversed.drop seen).reverse, size + 1)
            else
              bodyOnto quote closing (seen + 1) false (byte :: reversed)
                (size + 1) 0 rest
          else if isLineEnd byte then
            if escaped ∨ 1 < closing then
              bodyOnto quote closing 0 false (0x0a :: reversed) (size + 1)
                (if byte = 0x0d ∧ rest.take 1 = [0x0a] then 1 else 0) rest
            else malformed
          else
            let character := Text.firstCharacter (byte :: rest)
            let bytes := Text.ofCharacter character.code
            bodyOnto quote closing 0 (byte = 0x5c && !escaped)
              (bytes.reverseAux reversed) (size + 1) (character.size - 1)
              rest

/-- A literal from its opening quotes on. -/
def quotedLiteral (quoting : Quoting) (quote : UInt8) (text : Text) :
    Lexing Lexed := do
  let opening := if text.take 3 = [quote, quote, quote] then 3 else 1
  let (body, size) ←
    bodyOnto quote opening 0 false [] 0 0 (text.drop opening)
  return ⟨← quoting.lexeme body, opening + size - 1⟩

/-- The bytes that open and close a literal. -/
def isQuote (byte : UInt8) : Bool :=
  byte = 0x22 || byte = 0x27

/-- The literal at the front of a text, which may have letters before it. -/
def literal? (text : Text) : Option (Lexing Lexed) :=
  let marked (letters : Nat) (quoting : Quoting) : Option (Lexing Lexed) :=
    match text.drop letters with
    | [] => none
    | quote :: rest =>
        if isQuote quote then
          some do
            let lexed ← quotedLiteral quoting quote (quote :: rest)
            return ⟨lexed.lexeme, lexed.further + letters⟩
        else none
  match text with
  | 0x72 :: 0x62 :: _ => marked 2 ⟨true, true⟩
  | 0x72 :: _ => marked 1 ⟨true, false⟩
  | 0x62 :: _ => marked 1 ⟨false, true⟩
  | _ => marked 0 ⟨false, false⟩

/-- The lexeme at the front of a text. -/
def lexeme (first : UInt8) (rest : Text) : Lexing Lexed :=
  let text := first :: rest
  if let some found := literal? text then found
  else if isNameStart (Text.firstCharacter text).code then .ok (word text)
  else if Text.isDigit first ∨
      (first = 0x2e ∧ (rest.take 1).any Text.isDigit) then number text
  else operator text

/-- Does nothing but a comment stand on the rest of the line? -/
def isBlankLine (text : Text) : Bool :=
  match text.dropWhile isSpace with
  | [] => true
  | first :: _ => first = 0x23 || first = 0 || isLineEnd first

/-- How many brackets are open after a lexeme, if none closes too many. -/
def depthAfter? (depth : Nat) : Lexeme → Option Nat
  | .mark spelling =>
      if ["(", "[", "\x7b"].contains spelling then some (depth + 1)
      else if [")", "]", "\x7d"].contains spelling then
        if depth = 0 then none else some (depth - 1)
      else some depth
  | _ => some depth

/--
The lexemes of a text, onto those before it, held in reverse.

`depth` brackets are open, and `fresh` says that nothing stands on the line
so far.  No line is indented, and a zero byte ends the text.
-/
def lexemesOnto (depth : Nat) (fresh : Bool) (reversed : List Lexeme)
    (text : Text) : Lexing (List Lexeme) :=
  match text with
  | [] => .ok reversed.reverse
  | first :: rest =>
      if first = 0 then .ok reversed.reverse
      else if isLineEnd first then
        if depth = 0 ∧ !fresh then
          lexemesOnto depth true (.lineEnd :: reversed) rest
        else lexemesOnto depth true reversed rest
      else if isSpace first then
        if depth = 0 ∧ fresh ∧ !isBlankLine rest then malformed
        else lexemesOnto depth fresh reversed rest
      else if first = 0x23 then
        lexemesOnto depth fresh reversed
          (rest.drop (rest.findIdx fun byte => isLineEnd byte || byte = 0))
      else if first = 0x5c then
        if (rest.take 1).any isLineEnd then
          lexemesOnto depth false reversed (rest.drop 1)
        else malformed
      else
        match lexeme first rest with
        | .error stage => .error stage
        | .ok lexed =>
            match depthAfter? depth lexed.lexeme with
            | none => malformed
            | some depth' =>
                lexemesOnto depth' false (lexed.lexeme :: reversed)
                  (rest.drop lexed.further)
termination_by text.length
decreasing_by
  all_goals
    simp only [List.length_cons, List.length_drop]
    omega

/-- The lexemes of a text. -/
def lexemes (text : Text) : Lexing (List Lexeme) :=
  lexemesOnto 0 true [] text

end FlatAsm.Formula
