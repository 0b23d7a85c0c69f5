import FlatAsm.Machine.Mnemonic
import FlatAsm.SymInt

/-!
# Instructions

What a line of source text says once it has been read: a label, or an
instruction with its operands.  Each of them can be written out again.
-/

namespace FlatAsm

/-- An operand, by its addressing kind. -/
inductive Operand where
  /-- A register. -/
  | register (register : Register)
  /-- An immediate value or an absolute address. -/
  | displacement (value : SymInt)
  /-- The memory a register points to. -/
  | indirect (pointer : Register)
  /-- The memory a register plus a displacement points to. -/
  | indirectDisplacement (pointer : Register) (value : SymInt)
  deriving DecidableEq, Repr

namespace Operand

/-- The operand as source text. -/
def text : Operand → Text
  | .register direct => direct.name
  | .displacement value => value.text
  | .indirect pointer => 0x5b :: pointer.name ++ [0x5d]
  | .indirectDisplacement pointer value =>
      0x5b :: pointer.name ++ 0x3a :: value.text ++ [0x5d]

/-- The register that the operand names. -/
def register? : Operand → Option Register
  | .register direct => some direct
  | .displacement _ => none
  | .indirect pointer => some pointer
  | .indirectDisplacement pointer _ => some pointer

/-- The source text of an operand that may be missing. -/
def optionalText : Option Operand → Text
  | none => Text.ascii "<nil>"
  | some operand => operand.text

end Operand

/-- What an instruction does. -/
inductive Operation where
  /-- Literal bytes, one for each item. -/
  | data (items : List SymInt)
  /-- A jump to a target. -/
  | jump (opcode : Opcode) (width : Width) (target : SymInt)
  /--
  Two operands, the right one being a register.

  The operation is reversed if the register was written first.
  -/
  | reversible (pair : Opcode.Pair) (width : Width)
      (left : Option Operand) (right : Register) (reversed : Bool)
  /-- A single operand. -/
  | unary (opcode : Opcode) (width : Width) (operand : Option Operand)
  /-- An opcode alone. -/
  | nullary (opcode : Opcode) (width : Width)
  deriving DecidableEq, Repr

namespace Operation

/-- The operation as source text, with its operands in source order. -/
def text : Operation → Text
  | .data items =>
      Text.ascii "data " ++
        Text.join (Text.ascii ", ") (items.map SymInt.text)
  | .jump opcode _ target => opcode.name ++ 0x20 :: target.text
  | .reversible pair _ left right true =>
      pair.reverse.name ++ 0x20 :: right.name ++ Text.ascii ", " ++
        Operand.optionalText left
  | .reversible pair _ left right false =>
      pair.normal.name ++ 0x20 :: Operand.optionalText left ++
        Text.ascii ", " ++ right.name
  | .unary opcode _ operand =>
      opcode.name ++ 0x20 :: Operand.optionalText operand
  | .nullary opcode _ => opcode.name

end Operation

/-- An operation and the line it stands on. -/
structure Instruction where
  line : Int
  operation : Operation
  deriving DecidableEq, Repr

namespace Instruction

/-- The instruction as source text. -/
def text (instruction : Instruction) : Text :=
  instruction.operation.text

end Instruction

/-- A statement of the source text. -/
inductive Item where
  /-- Declares a label at the address of what follows. -/
  | label (line : Int) (name : Text)
  | instruction (instruction : Instruction)
  deriving DecidableEq, Repr

namespace Item

/-- The line a statement stands on. -/
def line : Item → Int
  | .label line _ => line
  | .instruction content => content.line

/-- The statement as source text. -/
def text : Item → Text
  | .label _ name => 0x2e :: name
  | .instruction content => content.text

end Item

end FlatAsm
