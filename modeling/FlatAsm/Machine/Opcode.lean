import FlatAsm.Machine.Width

/-!
# Opcodes

An opcode is a number; the machine has thirty of them.  A reversible
instruction has two: the normal one, whose right operand is the destination,
and the reverse one, whose left operand is.
-/

namespace FlatAsm

/-- An opcode, as it stands for operands of one byte. -/
structure Opcode where
  code : Int
  deriving DecidableEq, Repr

namespace Opcode

/-- The names of the opcodes, in the order of their numbers. -/
def names : List Text :=
  ["add", "addr", "sub", "subr", "mov", "movr", "cmp", "cmpr",
    "jmp", "je", "jne", "jl", "jle", "jg", "jge",
    "push", "pop", "call", "ret",
    "shl", "shlr", "shr", "shrr", "and", "andr", "xor", "xorr",
    "or", "orr", "not"].map Text.ascii

/-- The name of an opcode. -/
def name (opcode : Opcode) : Text :=
  numberedName (Text.ascii "Opcode") names opcode.code

/-- The opcode's byte in an instruction of the given width. -/
def encode (opcode : Opcode) (width : Width) : UInt8 :=
  (opcode.code % 0x100).toNat.toUInt8 + width.opcodeOffset

/-- The two opcodes of a reversible instruction. -/
structure Pair where
  /-- The right operand is the destination register. -/
  normal : Opcode
  /-- The left operand is the destination register. -/
  reverse : Opcode
  deriving DecidableEq, Repr

namespace Pair

/-- The opcode of the pair for a direction. -/
def select (pair : Pair) (reversed : Bool) : Opcode :=
  if reversed then pair.reverse else pair.normal

/-- Both names of the pair. -/
def name (pair : Pair) : Text :=
  pair.normal.name ++ [0x2f] ++ pair.reverse.name

end Pair

end Opcode

end FlatAsm
