import FlatAsm.Error
import FlatAsm.Machine.Width

/-!
# Little-endian fields

A field holds a 64-bit word as a fixed number of bytes, the lowest first.
A short field keeps the low bytes of the word, and a long one is filled up
with zeros.  Before it is written, the word is cut off by the mask of the
width of the field.
-/

namespace FlatAsm

namespace LittleEndian

/-- The lowest `size` bytes of a word, the lowest byte first. -/
def write : Nat → UInt64 → List UInt8
  | 0, _ => []
  | size + 1, word => word.toUInt8 :: write size (word >>> 8)

/-- The word with these bytes, the lowest byte first. -/
def read : List UInt8 → UInt64
  | [] => 0
  | byte :: rest => (read rest <<< 8) ||| byte.toUInt64

@[simp]
theorem length_write (size : Nat) (word : UInt64) :
    (write size word).length = size := by
  induction size generalizing word with
  | zero => rfl
  | succ size inductionHypothesis => simp [write, inductionHypothesis]

end LittleEndian

namespace Width

/-- The field of a word: what a mask leaves of it, as bytes. -/
def field (width : Width) (mask word : UInt64) : List UInt8 :=
  LittleEndian.write width.size (word &&& mask)

/-- The field of a word, for which the width needs a mask. -/
def fieldOf (width : Width) (word : UInt64) :
    Except Breakdown (List UInt8) :=
  match width.mask? with
  | none => .error .negativeShift
  | some mask => .ok (width.field mask word)

end Width

end FlatAsm
