import FlatAsm.Text.Template

/-!
# Errors

An error says where something went wrong and why.  The wording is decided in
one place, `Error.message`.
-/

namespace FlatAsm

/-- How far a formula got before it was rejected. -/
inductive FormulaStage where
  /-- It is not well formed. -/
  | grammar
  /-- It names something that does not exist, or assigns a name twice. -/
  | names
  /-- It cannot be computed. -/
  | computation
  deriving DecidableEq, Repr

/-- Why a piece of source text is rejected. -/
inductive Cause where
  | tokenUnexpected
  | numberRange
  | labelDuplicate
  | labelInvalid
  | operandCount
  | operandKind
  | operandWidth
  | timesCount
  | dataRange
  | relocationUnsupported
  | instructionUnsupported
  | widthInvalid
  /-- The formula has a value, but not one that can be used. -/
  | formulaInvalid (formula : Text)
  /-- The formula has no value. -/
  | formulaRejected (stage : FormulaStage)
  /-- Nobody has said why. -/
  | unstated
  deriving DecidableEq, Repr

namespace Cause

/-- The cause in words. -/
def message : Cause → Text
  | .tokenUnexpected => Text.ascii "unexpected token"
  | .numberRange => Text.ascii "number out of range"
  | .labelDuplicate => Text.ascii "label duplicated"
  | .labelInvalid => Text.ascii "label invalid"
  | .operandCount => Text.ascii "wrong number of operands"
  | .operandKind => Text.ascii "operand kind invalid"
  | .operandWidth => Text.ascii "operand widths differ"
  | .timesCount => Text.ascii "times count less than one"
  | .dataRange => Text.ascii "data value not a byte"
  | .relocationUnsupported => Text.ascii "relocation unsupported"
  | .instructionUnsupported => Text.ascii "instruction unsupported"
  | .widthInvalid => Text.ascii "width invalid"
  | .formulaInvalid formula =>
      Text.fill (Text.ascii "$(%v) is not a valid expression")
        [.text formula]
  | .formulaRejected .grammar => Text.ascii "formula malformed"
  | .formulaRejected .names => Text.ascii "formula name undefined"
  | .formulaRejected .computation => Text.ascii "formula without value"
  | .unstated => Text.ascii "<nil>"

end Cause

/--
Why work on an image breaks off.

No source text leads to this; only a field of a width that no instruction has
does.
-/
inductive Breakdown where
  /-- A mask is asked for whose number of bits is negative. -/
  | negativeShift
  /-- Bytes are asked for that a text or an image does not have. -/
  | sliceBounds
  /-- A byte is asked for that a text does not have. -/
  | indexBounds
  deriving DecidableEq, Repr

namespace Breakdown

/-- The reason in words. -/
def message : Breakdown → Text
  | .negativeShift => Text.ascii "negative shift amount"
  | .sliceBounds => Text.ascii "slice bounds out of range"
  | .indexBounds => Text.ascii "index out of range"

end Breakdown

/-- What can go wrong on the way from source text to a program. -/
inductive Error where
  /-- A character that starts no token. -/
  | illegalCharacter (line : Int) (code : Int)
  /-- A token that cannot stand where it does. -/
  | malformed (line : Int) (token : Text) (cause : Cause)
  /-- Operands that the instruction cannot take. -/
  | operand (line : Int) (mnemonic : Text) (cause : Cause)
  /-- A reference to a label that is declared nowhere. -/
  | labelMissing (line : Int) (label : Text)
  /-- A name that source text can never refer to. -/
  | predefine (name : Text)
  /-- A width, in bits, that the machine does not have. -/
  | width (bits : Int)
  /-- The source text could not be read. -/
  | unreadable (reason : Text)
  /-- A cause without a place. -/
  | bare (cause : Cause)
  /-- The work broke off. -/
  | breakdown (reason : Breakdown)
  deriving DecidableEq, Repr

namespace Error

/-- The error in words. -/
def message : Error → Text
  | .illegalCharacter line code =>
      Text.fill (Text.ascii "line %d illegal character %q")
        [.number line, .character code]
  | .malformed line [] cause =>
      Text.fill (Text.ascii "line %d %v")
        [.number line, .text cause.message]
  | .malformed line token cause =>
      Text.fill (Text.ascii "line %d '%v' %v")
        [.number line, .text token, .text cause.message]
  | .operand line mnemonic cause =>
      Text.fill (Text.ascii "line %d %v: %v")
        [.number line, .text mnemonic, .text cause.message]
  | .labelMissing line label =>
      Text.fill (Text.ascii "line %d label %v missing")
        [.number line, .text label]
  | .predefine name =>
      Text.fill (Text.ascii "%v cannot be predefined") [.text name]
  | .width bits =>
      Text.fill (Text.ascii "%d-bit width unsupported") [.number bits]
  | .unreadable reason => reason
  | .bare cause => cause.message
  | .breakdown reason => Text.ascii "runtime error: " ++ reason.message

end Error

end FlatAsm
