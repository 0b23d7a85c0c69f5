import FlatAsm.Error
import FlatAsm.Parser.Argument
import FlatAsm.Repetition

/-!
# From arguments to operations

Each category of mnemonics takes certain arguments only.  Here the arguments
of a mnemonic are checked, and an operation is made of them.
-/

namespace FlatAsm

namespace Argument

/-- The data that an argument stands for: a string gives all its bytes. -/
def items : Argument → Except Cause (List SymInt)
  | .string bytes =>
      .ok (bytes.map fun byte => .constant (Int64.ofNat byte.toNat))
  | .operand (.displacement value) => .ok [value]
  | .operand _ => .error .operandKind

/-- The operand that an argument is, unless it is a string. -/
def asOperand : Argument → Except Cause Operand
  | .string _ => .error .operandKind
  | .operand value => .ok value

end Argument

namespace Operation

/-- The most items that a repetition may have. -/
def timesLimit : Nat := 0x100000

/-- The data items of some arguments, of which there has to be one. -/
def dataItems (arguments : List Argument) :
    Except Cause (List SymInt) :=
  match arguments with
  | [] => .error .operandCount
  | _ => do
      let parts ← arguments.mapM Argument.items
      return parts.flatten

/--
Repeat data items as often as a constant count says.

The number of all items is computed in words of 64 bits.
-/
def timesItems (count : SymInt) (items : List SymInt) :
    Except Cause (List SymInt) :=
  if !count.isConstant then .error .relocationUnsupported
  else if count.base < 1 then .error .timesCount
  else if Int64.ofNat timesLimit < count.base ∨
      Int64.ofNat timesLimit < count.base * Int64.ofNat items.length then
    .error .numberRange
  else .ok (repeated count.base.toInt items)

/-- The width of all registers among the operands, or else the default. -/
def commonWidth (default : Width) (operands : List Operand) :
    Except Cause Width :=
  match operands.filterMap Operand.register? with
  | [] => .ok default
  | first :: others =>
      if others.all fun other => other.width = first.width then
        .ok first.width
      else .error .operandWidth

/-- Make an operation of operands, given their width. -/
def ofOperands (mnemonic : Mnemonic) (width : Width) :
    List Operand → Except Cause Operation :=
  match mnemonic.category with
  | .step => fun
      | [.register register] =>
          .ok (.reversible mnemonic.pair width
            (some (.displacement (.constant 1))) register true)
      | [_] => .error .operandKind
      | _ => .error .operandCount
  | .jump => fun
      | [.displacement target] => .ok (.jump mnemonic.opcode width target)
      | [_] => .error .operandKind
      | _ => .error .operandCount
  | .reversible => fun
      | [left, .register right] =>
          .ok (.reversible mnemonic.pair width (some left) right false)
      | [.register right, left] =>
          .ok (.reversible mnemonic.pair width (some left) right true)
      | [_, _] => .error .operandKind
      | _ => .error .operandCount
  | .unary => fun
      | [operand] => .ok (.unary mnemonic.opcode width (some operand))
      | _ => .error .operandCount
  | .nullary => fun
      | [] => .ok (.nullary mnemonic.opcode width)
      | _ => .error .operandCount
  | .data | .times => fun _ => .error .instructionUnsupported

/--
Make an operation of the arguments of a mnemonic.

The count matters to repeated data only, and the default width only to
instructions that name no register.
-/
def ofArguments (default : Width) (mnemonic : Mnemonic) (count : SymInt)
    (arguments : List Argument) : Except Cause Operation :=
  match mnemonic.category with
  | .data => do
      let items ← dataItems arguments
      return .data items
  | .times => do
      let items ← dataItems arguments
      return .data (← timesItems count items)
  | _ => do
      let operands ← arguments.mapM Argument.asOperand
      let width ← commonWidth default operands
      ofOperands mnemonic width operands

end Operation

end FlatAsm
