import FlatAsm.Image

/-!
# Programs

A program is a finished image together with its labels and the statements it
was made of.
-/

namespace FlatAsm

/-- An instruction, its code and the place of both. -/
structure Statement where
  line : Int
  offset : Nat
  instruction : Instruction
  code : Code
  deriving DecidableEq, Repr

namespace Statement

/-- The offset after the code of the statement. -/
def endOffset (statement : Statement) : Int :=
  statement.offset + statement.code.size

/-- Does the code of the statement cover an offset? -/
def covers (statement : Statement) (offset : Int) : Bool :=
  statement.offset ≤ offset && offset < statement.endOffset

end Statement

/-- The result of an assembly. -/
structure Program where
  /-- The machine image, from offset 0 on. -/
  binary : Array UInt8
  /-- The address of every label. -/
  symbols : Table Int
  /-- The instructions, in the order of the image. -/
  statements : List Statement
  deriving DecidableEq, Repr

namespace Program

/-- A statement and an index into its code. -/
structure Position where
  statement : Statement
  index : Int
  deriving DecidableEq, Repr

/-- The statement that covers an offset of the image. -/
def positionAt? (program : Program) (offset : Int) : Option Position :=
  (program.statements.find? (·.covers offset)).map fun statement =>
    ⟨statement, offset - statement.offset⟩

/-- The finished bytes of a statement. -/
def bytesOf (program : Program) (statement : Statement) : List UInt8 :=
  (program.binary.extract statement.offset
    statement.endOffset.toNat).toList

/-- Every statement with its finished bytes. -/
def listing (program : Program) : List (Statement × List UInt8) :=
  program.statements.map fun statement =>
    (statement, program.bytesOf statement)

end Program

end FlatAsm
