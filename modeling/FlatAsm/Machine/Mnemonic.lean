import FlatAsm.Machine.Opcode
import FlatAsm.Machine.Register

/-!
# Mnemonics

A mnemonic is the keyword of an instruction.  Its category says which
operands it takes and what is made of them.
-/

namespace FlatAsm

/-- The grammatical class of a mnemonic. -/
inductive Category where
  /-- Literal bytes. -/
  | data
  /-- Literal bytes, several times over. -/
  | times
  /-- A step of one up or down. -/
  | step
  /-- A jump to a target. -/
  | jump
  /-- Two operands, one of them a register, in either order. -/
  | reversible
  /-- A single operand. -/
  | unary
  /-- No operands. -/
  | nullary
  deriving DecidableEq, Repr

namespace Category

/-- The categories, in the order of their numbers. -/
def all : List Category :=
  [.data, .times, .step, .jump, .reversible, .unary, .nullary]

/-- The name of a category. -/
def name : Category → Text
  | .data => Text.ascii "data"
  | .times => Text.ascii "times"
  | .step => Text.ascii "step"
  | .jump => Text.ascii "jump"
  | .reversible => Text.ascii "reversible"
  | .unary => Text.ascii "unary"
  | .nullary => Text.ascii "nullary"

/-- The name of the category with a number. -/
def nameOfNumber (number : Int) : Text :=
  numberedName (Text.ascii "Category") (all.map name) number

end Category

/-- An instruction keyword. -/
structure Mnemonic where
  name : Text
  category : Category
  /-- The opcode, which is the normal one of a pair. -/
  opcode : Opcode
  /-- The reverse opcode of a pair, for a step or a reversible mnemonic. -/
  reverse : Opcode
  deriving DecidableEq, Repr

namespace Mnemonic

/-- The opcode pair of a step or a reversible mnemonic. -/
def pair (mnemonic : Mnemonic) : Opcode.Pair :=
  ⟨mnemonic.opcode, mnemonic.reverse⟩

/-- A mnemonic with one opcode. -/
def single (name : String) (category : Category) (code : Int) : Mnemonic :=
  ⟨Text.ascii name, category, ⟨code⟩, ⟨0⟩⟩

/-- A mnemonic with an opcode pair, the reverse one being the next number. -/
def paired (name : String) (category : Category) (code : Int) : Mnemonic :=
  ⟨Text.ascii name, category, ⟨code⟩, ⟨code + 1⟩⟩

/-- The mnemonics of the machine. -/
def all : List Mnemonic :=
  [single "data" .data 0, single "times" .times 0,
    paired "inc" .step 0, paired "dec" .step 2,
    single "jmp" .jump 8, single "je" .jump 9, single "jne" .jump 10,
    single "jl" .jump 11, single "jle" .jump 12, single "jg" .jump 13,
    single "jge" .jump 14, single "call" .jump 17,
    paired "add" .reversible 0, paired "sub" .reversible 2,
    paired "mov" .reversible 4, paired "cmp" .reversible 6,
    paired "shl" .reversible 19, paired "shr" .reversible 21,
    paired "and" .reversible 23, paired "xor" .reversible 25,
    paired "or" .reversible 27,
    single "push" .unary 15, single "pop" .unary 16,
    single "not" .unary 29,
    single "ret" .nullary 18]

/-- The mnemonic with this name, in any case. -/
def ofName? (text : Text) : Option Mnemonic :=
  let lower := text.lowerCase
  all.find? fun mnemonic => mnemonic.name == lower

end Mnemonic

end FlatAsm
