import FlatAsm.Machine.Mnemonic
import FlatAsm.Text.Quoted

/-!
# Tokens

The lexical elements of source text.  Every token remembers the line it
stands on and its text.
-/

namespace FlatAsm

/-- A punctuation mark. -/
inductive Mark where
  | colon
  | plus
  | minus
  | openBracket
  | closeBracket
  | dot
  | comma
  deriving DecidableEq, Repr

namespace Mark

/-- The byte of a mark. -/
def byte : Mark → UInt8
  | .colon => 0x3a
  | .plus => 0x2b
  | .minus => 0x2d
  | .openBracket => 0x5b
  | .closeBracket => 0x5d
  | .dot => 0x2e
  | .comma => 0x2c

/-- The mark with a byte. -/
def ofByte? (byte : UInt8) : Option Mark :=
  [colon, plus, minus, openBracket, closeBracket, dot, comma].find?
    fun mark => mark.byte == byte

end Mark

namespace Token

/-- The lexical class of a token, with what it stands for. -/
inductive Kind where
  /-- The end of the text. -/
  | endOfText
  /-- One or more line ends in a row. -/
  | newline
  /-- A number, a character or a formula. -/
  | integer (value : Int64)
  /-- A string; its text is what stands between the quotes. -/
  | string
  | register (register : Register)
  | mnemonic (mnemonic : Mnemonic)
  | identifier
  | punctuation (mark : Mark)
  deriving DecidableEq, Repr

namespace Kind

/-- The names of the classes, in the order of their numbers. -/
def names : List Text :=
  ["eof", "newline", "integer", "string", "register", "mnemonic",
    "identifier", "punctuation"].map Text.ascii

/-- The number of a class. -/
def number : Kind → Nat
  | .endOfText => 0
  | .newline => 1
  | .integer _ => 2
  | .string => 3
  | .register _ => 4
  | .mnemonic _ => 5
  | .identifier => 6
  | .punctuation _ => 7

/-- The name of the class with a number. -/
def nameOfNumber (number : Int) : Text :=
  numberedName (Text.ascii "TokenKind") names number

/-- The name of a class. -/
def name (kind : Kind) : Text :=
  nameOfNumber kind.number

end Kind

end Token

/-- A lexical element of the source text. -/
structure Token where
  kind : Token.Kind
  line : Int
  text : Text
  deriving DecidableEq, Repr

namespace Token

/-- Is the token the given mark? -/
def isMark (token : Token) (mark : Mark) : Bool :=
  token.kind = .punctuation mark

/-- Does a statement end before the token? -/
def endsStatement (token : Token) : Bool :=
  token.kind = .newline || token.kind = .endOfText

/-- The token as a message shows it. -/
def shown (token : Token) : Text :=
  match token.kind with
  | .endOfText | .newline => token.kind.name
  | .string => Text.quoted token.text
  | _ => token.text

/-- The source text the token was read from. -/
def spelling (token : Token) : Text :=
  match token.kind with
  | .string => 0x22 :: token.text ++ [0x22]
  | _ => token.text

/-- How many lines end within the token. -/
def lineEnds (token : Token) : Nat :=
  match token.kind with
  | .newline => token.text.length
  | _ => 0

end Token

end FlatAsm
