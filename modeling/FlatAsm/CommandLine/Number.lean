import FlatAsm.Text.Quoted

/-!
# Numbers on the command line

An integer may have a sign.  A prefix says its base: `0x`, `0o`, `0b`, or a
plain `0` for base 8.  Underscores may stand between digits and after a
prefix.  The value has to fit a signed word of 64 bits.
-/

namespace FlatAsm.CommandLine

/-- What is wrong with a value. -/
inductive ValueFault where
  | malformed
  | outOfRange
  deriving DecidableEq, Repr

namespace ValueFault

/-- The fault in words. -/
def reason : ValueFault → Text
  | .malformed => Text.ascii "invalid syntax"
  | .outOfRange => Text.ascii "value out of range"

end ValueFault

/-- The value of a digit or letter, which may be too large for a base. -/
def digitValue? (byte : UInt8) : Option Nat :=
  if 0x30 ≤ byte ∧ byte ≤ 0x39 then some (byte.toNat - 0x30)
  else if 0x61 ≤ byte ∧ byte ≤ 0x7a then some (byte.toNat - 0x57)
  else if 0x41 ≤ byte ∧ byte ≤ 0x5a then some (byte.toNat - 0x37)
  else none

/-- Add a digit to a number; underscores are passed over. -/
def addDigit (base value : Nat) (byte : UInt8) : Except ValueFault Nat :=
  if byte = 0x5f then .ok value
  else
    match digitValue? byte with
    | none => .error .malformed
    | some digit =>
        if base ≤ digit then .error .malformed
        else if 0x10000000000000000 ≤ base * value + digit then .error .outOfRange
        else .ok (base * value + digit)

/-- The base of a number and its digits after the prefix. -/
def splitBase (text : Text) : Nat × Text :=
  match text with
  | 0x30 :: rest =>
      match rest with
      | letter :: first :: digits =>
          if letter = 0x62 ∨ letter = 0x42 then (2, first :: digits)
          else if letter = 0x6f ∨ letter = 0x4f then (8, first :: digits)
          else if letter = 0x78 ∨ letter = 0x58 then (16, first :: digits)
          else (8, rest)
      | _ => (8, rest)
  | _ => (10, text)

/-- Does every underscore stand after a digit and before another one? -/
def underscoresFit (afterDigit : Bool) : Text → Bool
  | [] => true
  | [byte] => byte != 0x5f
  | byte :: next :: rest =>
      (byte != 0x5f || (afterDigit && next != 0x5f)) &&
        underscoresFit (byte != 0x5f) (next :: rest)

/-- Read a number without a sign. -/
def readUnsigned (text : Text) : Except ValueFault Nat :=
  if text = [] then .error .malformed
  else
    let (base, digits) := splitBase text
    match digits.foldlM (addDigit base) 0 with
    | .error fault => .error fault
    | .ok value =>
        if underscoresFit (digits.length < text.length) digits then
          .ok value
        else .error .malformed

/-- Read an integer. -/
def readInteger (text : Text) : Except ValueFault Int :=
  let limit : Int := 0x8000000000000000
  match text with
  | 0x2d :: rest => do
      let value : Int ← readUnsigned rest
      if limit < value then .error .outOfRange else .ok (-value)
  | 0x2b :: rest => do
      let value : Int ← readUnsigned rest
      if limit ≤ value then .error .outOfRange else .ok value
  | _ => do
      let value : Int ← readUnsigned text
      if limit ≤ value then .error .outOfRange else .ok value

/-- Read a truth value. -/
def readBool (text : Text) : Except ValueFault Bool :=
  if (["1", "t", "T", "TRUE", "true", "True"].map Text.ascii).contains text
  then .ok true
  else if (["0", "f", "F", "FALSE", "false", "False"].map
      Text.ascii).contains text
  then .ok false
  else .error .malformed

/-- The complaint about a value that cannot be read. -/
def complaint (reader : String) (value : Text) (fault : ValueFault) :
    Text :=
  Text.ascii reader ++ Text.ascii ": parsing " ++ Text.quoted value ++
    Text.ascii ": " ++ fault.reason

/-- The complaint about a value that is no integer. -/
def integerComplaint (value : Text) (fault : ValueFault) : Text :=
  complaint "strconv.ParseInt" value fault

/-- The complaint about a value that is no truth value. -/
def boolComplaint (value : Text) (fault : ValueFault) : Text :=
  complaint "strconv.ParseBool" value fault

end FlatAsm.CommandLine
