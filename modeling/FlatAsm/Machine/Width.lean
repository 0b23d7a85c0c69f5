import FlatAsm.Machine.Name

/-!
# Operand widths

The machine works on bytes and on words of two bytes.  A width is counted in
bytes; only the two of the machine are supported, but a number that is no
supported width still has a name, a size and a mask.
-/

namespace FlatAsm

/-- An operand width, in bytes. -/
structure Width where
  bytes : Int
  deriving DecidableEq, Repr

namespace Width

/-- The width of a byte. -/
def byte : Width := ⟨1⟩

/-- The width of a word. -/
def word : Width := ⟨2⟩

/-- The number of bits if the width is supported. -/
def name (width : Width) : Text :=
  if width = byte then Text.ascii "8"
  else if width = word then Text.ascii "16"
  else numberedName (Text.ascii "Width") [] width.bytes

/-- The supported width with this many bits. -/
def ofBits? (bits : Int) : Option Width :=
  if bits = 8 then some byte
  else if bits = 16 then some word
  else none

/-- Does the machine support the width? -/
def isSupported (width : Width) : Bool :=
  width = byte || width = word

/-- The width in bits, as a signed number of 64 bits. -/
def bits (width : Width) : Int :=
  Int.bmod (8 * width.bytes) 0x10000000000000000

/-- How many bytes a field of this width takes. -/
def size (width : Width) : Nat :=
  width.bytes.toNat

/--
The bits that a field of this width keeps.

There is no mask for a negative number of bits, and one for 64 bits or more
keeps everything.
-/
def mask? (width : Width) : Option UInt64 :=
  if width.bits < 0 then none
  else if width.bits < 64 then
    some (Nat.pow 2 width.bits.toNat - 1).toUInt64
  else some (-1)

/-- The distance of the width's opcodes from those of bytes. -/
def opcodeOffset (width : Width) : UInt8 :=
  if width = word then 0x20 else 0

end Width

end FlatAsm
