import FlatAsm.Error
import FlatAsm.Instruction
import FlatAsm.Machine.ModRM

/-!
# Machine code

The code of an instruction is some fixed bytes and then some fields, whose
values may depend on labels.  How long it is does not depend on them.
-/

namespace FlatAsm

/-- A value in a fixed number of bytes. -/
structure Field where
  value : SymInt
  width : Width
  /-- Has the value to be that of an unsigned byte? -/
  isByte : Bool
  deriving DecidableEq, Repr

/-- The code of an instruction: opcode and addressing byte, then fields. -/
structure Code where
  bytes : List UInt8
  fields : List Field
  deriving DecidableEq, Repr

namespace Code

/-- The size of the code in bytes. -/
def size (code : Code) : Int :=
  code.fields.foldr (fun field total => field.width.bytes + total)
    code.bytes.length

/-- The size as a signed number of 64 bits, which is how it is reported. -/
def sizeWord (code : Code) : Int64 :=
  Int64.ofInt code.size

/-- The bytes in hexadecimal and the fields with their widths. -/
def text (code : Code) : Text :=
  Text.join [0x20]
    (code.bytes.map Text.hexByte ++
      code.fields.map fun field =>
        0x28 :: field.value.text ++ Text.ascii "):" ++ field.width.name)

end Code

namespace Operand

/-- The addressing kind of an operand. -/
def mode : Operand → Mode
  | .register _ => .register
  | .indirect _ => .atRegister
  | .indirectDisplacement _ _ => .atRegisterDisplaced
  | .displacement _ => .displacement

/-- The register code that the addressing byte holds for an operand. -/
def code (operand : Operand) : Int :=
  match operand.register? with
  | some named => named.code
  | none => 0

/-- The displacement of an operand. -/
def displacement? : Operand → Option SymInt
  | .register _ | .indirect _ => none
  | .indirectDisplacement _ value | .displacement value => some value

/-- The addressing byte of an operand beside a register. -/
def modrm (operand : Operand) (right : Register) : ModRM :=
  ModRM.pack operand.mode.code operand.code right.code

/-- The field that follows the addressing byte, if any. -/
def fields (operand : Operand) (width : Width) : List Field :=
  match operand.displacement? with
  | none => []
  | some value => [⟨value, width, false⟩]

end Operand

namespace Operation

/-- The name of an operation in error messages. -/
def mnemonic : Operation → Text
  | .data _ => Text.ascii "data"
  | .jump opcode _ _ => opcode.name
  | .reversible pair _ _ _ reversed => (pair.select reversed).name
  | .unary opcode _ _ => opcode.name
  | .nullary opcode _ => opcode.name

/-- Is a data item known not to be a byte? -/
def isOutOfRange (item : SymInt) : Bool :=
  item.isConstant && (item.base < 0 || item.base > 0xff)

/-- The code of an opcode with an operand beside a register. -/
def encodeAddressed (opcode : Opcode) (width : Width)
    (operand : Option Operand) (right : Register) : Except Cause Code :=
  match operand with
  | none => .error .operandKind
  | some operand =>
      .ok ⟨[opcode.encode width, (operand.modrm right).byte],
        operand.fields width⟩

/-- The code of an operation. -/
def encode : Operation → Except Cause Code
  | .data items =>
      if items.any isOutOfRange then .error .dataRange
      else .ok ⟨[], items.map fun item => ⟨item, .byte, true⟩⟩
  | .jump opcode width target =>
      .ok ⟨[opcode.encode width], [⟨target, width, false⟩]⟩
  | .reversible pair width left right reversed =>
      encodeAddressed (pair.select reversed) width left right
  | .unary opcode width operand =>
      encodeAddressed opcode width operand (.accumulator width)
  | .nullary opcode width => .ok ⟨[opcode.encode width], []⟩

end Operation

namespace Instruction

/-- The code of an instruction. -/
def encode (instruction : Instruction) : Except Error Code :=
  match instruction.operation.encode with
  | .ok code => .ok code
  | .error cause =>
      .error (.operand instruction.line instruction.operation.mnemonic cause)

/-- The code of an instruction that may be missing. -/
def encodeOptional : Option Instruction → Except Error Code
  | none => .error (.bare .instructionUnsupported)
  | some instruction => instruction.encode

end Instruction

end FlatAsm
