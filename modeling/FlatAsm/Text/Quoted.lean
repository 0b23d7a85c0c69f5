import FlatAsm.Text.Printable
import FlatAsm.Text.Utf8

/-!
# Quoted text

Characters and strings are shown between quotes.  A printable character
stands for itself, the quote and the backslash are escaped, and every other
character is written as an escape sequence.
-/

namespace FlatAsm.Text

/-- The letter of a control character that has a short escape. -/
def shortEscape? (code : Nat) : Option UInt8 :=
  match code with
  | 0x07 => some 0x61
  | 0x08 => some 0x62
  | 0x0c => some 0x66
  | 0x0a => some 0x6e
  | 0x0d => some 0x72
  | 0x09 => some 0x74
  | 0x0b => some 0x76
  | _ => none

/-- Is the character both printable and in ASCII? -/
def isPlain (code : Nat) : Bool :=
  code < 0x80 && isPrintable code

/--
A character as it appears between two quotes of the given kind, given which
characters stand for themselves.
-/
def escaped (stands : Nat → Bool) (quote : UInt8) (code : Nat) : Text :=
  if code = quote.toNat ∨ code = 0x5c then [0x5c, code.toUInt8]
  else if stands code then ofCharacter code
  else
    match shortEscape? code with
    | some letter => [0x5c, letter]
    | none =>
        if code < 0x20 ∨ code = 0x7f then ascii "\\x" ++ hexDigits 2 code
        else if code < 0x10000 then ascii "\\u" ++ hexDigits 4 code
        else ascii "\\U" ++ hexDigits 8 code

/--
A character between single quotes, given which ones stand for themselves.

A character that does not exist is replaced.
-/
def quotedCharacterBy (stands : Nat → Bool) (code : Nat) : Text :=
  let scalar := if isScalar code then code else replacement
  0x27 :: escaped stands 0x27 scalar ++ [0x27]

/-- A character between single quotes. -/
def quotedCharacter (code : Nat) : Text :=
  quotedCharacterBy isPrintable code

/--
Escape a text for double quotes, onto the escaped bytes before it, which are
held in reverse.

The first `skip` bytes belong to a character that has been written already.
A byte that is not well formed UTF-8 is shown in hexadecimal.
-/
def escapeOnto (stands : Nat → Bool) (reversed : Text) (skip : Nat) :
    Text → Text
  | [] => reversed.reverse
  | byte :: rest =>
      match skip with
      | more + 1 => escapeOnto stands reversed more rest
      | 0 =>
          let character := firstCharacter (byte :: rest)
          let shown :=
            if character = illFormed then ascii "\\x" ++ hexByte byte
            else escaped stands 0x22 character.code
          escapeOnto stands (shown.reverseAux reversed)
            (character.size - 1) rest

/-- A text between double quotes, given what stands for itself. -/
def quotedBy (stands : Nat → Bool) (text : Text) : Text :=
  0x22 :: escapeOnto stands [] 0 text ++ [0x22]

/-- A text between double quotes. -/
def quoted (text : Text) : Text :=
  quotedBy isPrintable text

/--
Can a text stand between backquotes, where nothing is escaped?

The first `skip` bytes belong to a character that has been looked at.
-/
def fitsBackquotes (skip : Nat) : Text → Bool
  | [] => true
  | byte :: rest =>
      match skip with
      | more + 1 => fitsBackquotes more rest
      | 0 =>
          let character := firstCharacter (byte :: rest)
          character ≠ illFormed && character.code != 0xfeff &&
            (0x20 ≤ byte || byte = 0x09) && byte != 0x60 && byte != 0x7f &&
            fitsBackquotes (character.size - 1) rest

end FlatAsm.Text
