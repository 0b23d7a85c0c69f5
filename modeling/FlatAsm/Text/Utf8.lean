import FlatAsm.Text

/-!
# Characters in UTF-8

A text is read as characters one at a time.  A byte that starts no well
formed sequence counts as the replacement character and is one byte long.
-/

namespace FlatAsm.Text

/-- The character that stands in for whatever is not well formed. -/
def replacement : Nat := 0xfffd

/-- A character read from the front of a text, and its size in bytes. -/
structure Character where
  code : Nat
  size : Nat
  deriving DecidableEq, Repr

/-- A byte of a sequence after its first one. -/
def isContinuation (byte : UInt8) : Bool :=
  0x80 ≤ byte && byte ≤ 0xbf

/-- What a byte that starts no sequence reads as. -/
def illFormed : Character := ⟨replacement, 1⟩

/-- The six value bits of a continuation byte. -/
def continuationBits (byte : UInt8) : Nat :=
  byte.toNat % 0x40

/-- The first character of a text; an empty text has one of size 0. -/
def firstCharacter : Text → Character
  | [] => ⟨replacement, 0⟩
  | lead :: rest =>
      if lead < 0x80 then ⟨lead.toNat, 1⟩
      else if 0xc2 ≤ lead ∧ lead ≤ 0xdf then
        match rest with
        | second :: _ =>
            if isContinuation second then
              ⟨lead.toNat % 0x20 * 0x40 + continuationBits second, 2⟩
            else illFormed
        | _ => illFormed
      else if 0xe0 ≤ lead ∧ lead ≤ 0xef then
        match rest with
        | second :: third :: _ =>
            if isContinuation second ∧ isContinuation third ∧
                ¬(lead = 0xe0 ∧ second < 0xa0) ∧
                ¬(lead = 0xed ∧ 0x9f < second) then
              ⟨(lead.toNat % 0x10 * 0x40 + continuationBits second) * 0x40 +
                continuationBits third, 3⟩
            else illFormed
        | _ => illFormed
      else if 0xf0 ≤ lead ∧ lead ≤ 0xf4 then
        match rest with
        | second :: third :: fourth :: _ =>
            if isContinuation second ∧ isContinuation third ∧
                isContinuation fourth ∧
                ¬(lead = 0xf0 ∧ second < 0x90) ∧
                ¬(lead = 0xf4 ∧ 0x8f < second) then
              ⟨((lead.toNat % 8 * 0x40 + continuationBits second) * 0x40 +
                continuationBits third) * 0x40 + continuationBits fourth, 4⟩
            else illFormed
        | _ => illFormed
      else illFormed

/-- The code of the character that a text consists of, if it is one. -/
def onlyCharacter? (text : Text) : Option Nat :=
  let character := firstCharacter text
  if text ≠ [] ∧ character.size = text.length then some character.code
  else none

/--
How many characters a text has.

The first `skip` bytes belong to a character that has been counted.
-/
def countCharacters (skip : Nat) : Text → Nat
  | [] => 0
  | byte :: rest =>
      match skip with
      | more + 1 => countCharacters more rest
      | 0 =>
          countCharacters ((firstCharacter (byte :: rest)).size - 1) rest + 1

/--
The first characters of a text.

The first `skip` bytes belong to a character that has been taken.
-/
def takeCharacters (count skip : Nat) : Text → Text
  | [] => []
  | byte :: rest =>
      match skip, count with
      | more + 1, _ => byte :: takeCharacters count more rest
      | 0, 0 => []
      | 0, fewer + 1 =>
          byte ::
            takeCharacters fewer
              ((firstCharacter (byte :: rest)).size - 1) rest

/-- Is the number the code point of a character? -/
def isScalar (code : Nat) : Bool :=
  code < 0xd800 || (0xdfff < code && code < 0x110000)

/-- The bytes of a character; one that does not exist is replaced. -/
def ofCharacter (code : Nat) : Text :=
  let scalar := if isScalar code then code else replacement
  if scalar < 0x80 then [scalar.toUInt8]
  else if scalar < 0x800 then
    [(0xc0 + scalar / 0x40).toUInt8, (0x80 + scalar % 0x40).toUInt8]
  else if scalar < 0x10000 then
    [(0xe0 + scalar / 0x1000).toUInt8,
      (0x80 + scalar / 0x40 % 0x40).toUInt8,
      (0x80 + scalar % 0x40).toUInt8]
  else
    [(0xf0 + scalar / 0x40000).toUInt8,
      (0x80 + scalar / 0x1000 % 0x40).toUInt8,
      (0x80 + scalar / 0x40 % 0x40).toUInt8,
      (0x80 + scalar % 0x40).toUInt8]

end FlatAsm.Text
