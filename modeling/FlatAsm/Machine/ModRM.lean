import FlatAsm.Machine.Register

/-!
# Addressing mode bytes

The byte after the opcode of an instruction with operands holds the
addressing kind in its top two bits, then the register of the left operand
and the register of the right operand in three bits each.
-/

namespace FlatAsm

/-- An addressing kind. -/
inductive Mode where
  /-- A register. -/
  | register
  /-- The memory at a register. -/
  | atRegister
  /-- The memory at a register plus a displacement. -/
  | atRegisterDisplaced
  /-- A displacement. -/
  | displacement
  deriving DecidableEq, Repr

namespace Mode

/-- The kinds, in the order of their numbers. -/
def all : List Mode :=
  [.register, .atRegister, .atRegisterDisplaced, .displacement]

/-- The number of an addressing kind. -/
def code : Mode → Int
  | .register => 0
  | .atRegister => 1
  | .atRegisterDisplaced => 2
  | .displacement => 3

/-- The name of an addressing kind. -/
def name : Mode → Text
  | .register => Text.ascii "reg"
  | .atRegister => Text.ascii "at_reg"
  | .atRegisterDisplaced => Text.ascii "at_reg_disp"
  | .displacement => Text.ascii "disp"

/-- The name of the addressing kind with a number. -/
def nameOfNumber (number : Int) : Text :=
  numberedName (Text.ascii "Mod") (all.map name) number

/-- Does a displacement follow an addressing byte of this kind? -/
def hasDisplacement : Mode → Bool
  | .register | .atRegister => false
  | .atRegisterDisplaced | .displacement => true

end Mode

/-- An addressing mode byte. -/
structure ModRM where
  byte : UInt8
  deriving DecidableEq, Repr

namespace ModRM

/-- Pack the lowest two, three and three bits of three numbers. -/
def pack (mode left right : Int) : ModRM :=
  ⟨(mode % 4 * 0x40 + left % 8 * 8 + right % 8).toNat.toUInt8⟩

/-- The addressing kind. -/
def mode (modrm : ModRM) : Mode :=
  match modrm.byte.toNat / 0x40 with
  | 0 => .register
  | 1 => .atRegister
  | 2 => .atRegisterDisplaced
  | _ => .displacement

/-- The register code of the left operand. -/
def left (modrm : ModRM) : Int :=
  modrm.byte.toNat / 8 % 8

/-- The register code of the right operand. -/
def right (modrm : ModRM) : Int :=
  modrm.byte.toNat % 8

/-- The parts of an addressing byte that mean something, with dots between. -/
def name (modrm : ModRM) : Text :=
  if modrm.mode = .displacement then
    modrm.mode.name ++ [0x2e] ++ Register.codeName modrm.right
  else
    modrm.mode.name ++ [0x2e] ++ Register.codeName modrm.left ++ [0x2e] ++
      Register.codeName modrm.right

end ModRM

end FlatAsm
