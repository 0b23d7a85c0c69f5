import FlatAsm.Machine.Width
import FlatAsm.Text.Case

/-!
# Registers

The machine has five registers, and every register has a name at each of the
two widths.  Names are recognised without regard to case.
-/

namespace FlatAsm

/-- A register code at a width. -/
structure Register where
  code : Int
  width : Width
  deriving DecidableEq, Repr

namespace Register

/-- The name of a register code. -/
def codeName (code : Int) : Text :=
  if code = 0 then Text.ascii "ax"
  else if code = 1 then Text.ascii "bx"
  else if code = 2 then Text.ascii "cx"
  else if code = 3 then Text.ascii "dx"
  else if code = 7 then Text.ascii "sp"
  else numberedName (Text.ascii "Reg") [] code

/-- The name of a register: that of its code, after an `e` for a word. -/
def name (register : Register) : Text :=
  if register.width = Width.word then 0x65 :: codeName register.code
  else codeName register.code

/-- The registers of the machine. -/
def all : List Register :=
  [⟨0, .byte⟩, ⟨1, .byte⟩, ⟨2, .byte⟩, ⟨3, .byte⟩, ⟨7, .byte⟩,
    ⟨0, .word⟩, ⟨1, .word⟩, ⟨2, .word⟩, ⟨3, .word⟩, ⟨7, .word⟩]

/-- Every register with its name. -/
def named : List (Text × Register) :=
  all.map fun register => (register.name, register)

/-- The register with this name, in any case. -/
def ofName? (text : Text) : Option Register :=
  named.lookup text.lowerCase

/-- The register that instructions with one operand use implicitly. -/
def accumulator (width : Width) : Register :=
  ⟨0, width⟩

end Register

end FlatAsm
