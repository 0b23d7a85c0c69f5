import FlatAsm.Parser.Statement
import FlatAsm.Program

/-!
# Assembly

An assembler takes a single pass over its source text.  The size of every
instruction is known as soon as it is parsed, so labels get their addresses
on the way, and what depends on labels is filled in at the end.

The language of formulas is a parameter here: it computes the value of a
formula from its text, its line, and the settings of the assembler.
-/

namespace FlatAsm

/-- An image under construction and the statements it is made of. -/
structure Layout where
  image : Image
  statements : Array Statement
  deriving DecidableEq, Repr

namespace Layout

/-- The layout of nothing. -/
def empty : Layout :=
  ⟨.empty, #[]⟩

/-- Declare a label where the next code goes. -/
def declare (constants : Table Int64) (layout : Layout) (line : Int)
    (name : Text) : Except Error Layout :=
  if layout.image.symbols.contains name || constants.contains name then
    .error (.malformed line (0x2e :: name) .labelDuplicate)
  else
    .ok { layout with
      image := layout.image.define name layout.image.offset }

/-- Append the code of an instruction. -/
def append (layout : Layout) (instruction : Instruction) :
    Except Error Layout :=
  match instruction.encode with
  | .error fault => .error fault
  | .ok code =>
      let statement : Statement :=
        ⟨instruction.line, layout.image.offset, instruction, code⟩
      match layout.image.emit code instruction.line with
      | .error reason => .error (.breakdown reason)
      | .ok image => .ok ⟨image, layout.statements.push statement⟩

/-- Lay out one more item. -/
def place (constants : Table Int64) (layout : Layout) :
    Item → Except Error Layout
  | .label line name => layout.declare constants line name
  | .instruction content => layout.append content

/-- Lay out items one after the other, up to the first error. -/
def ofItems (constants : Table Int64) (items : List Item) :
    Except Error Layout :=
  items.foldlM (place constants) empty

/-- Fill in what depends on labels. -/
def finish (layout : Layout) : Except Error Program :=
  match layout.image.applyRelocations with
  | .error reason => .error (.breakdown reason)
  | .ok (_, some fault) => .error fault
  | .ok (image, none) =>
      .ok ⟨image.data, image.symbols, layout.statements.toList⟩

end Layout

/-- Assemble statements, of which the last may be followed by an error. -/
def assembleParsed (constants : Table Int64) (parsed : Parsed) :
    Except Error Program :=
  match Layout.ofItems constants parsed.items with
  | .error fault => .error fault
  | .ok layout =>
      match parsed.fault with
      | some fault => .error fault
      | none => layout.finish

/-- Assemble a text, given a default width and the values of names. -/
def assembleText (evaluate : Evaluator) (width : Width)
    (constants : Table Int64) (text : Text) : Except Error Program :=
  assembleParsed constants
    (parse width constants (tokenize (some evaluate) text))

/-- Computes formulas, given the default width and the values of names. -/
abbrev FormulaLanguage := Width → Table Int64 → Evaluator

/-- The settings of an assembler. -/
structure Assembler where
  /-- The width of instructions that name no register; 0 if it is not set. -/
  width : Width
  /-- The names that stand for values. -/
  constants : Table Int64
  deriving DecidableEq, Repr

namespace Assembler

/-- An assembler without settings. -/
def initial : Assembler :=
  ⟨⟨0⟩, ∅⟩

/-- Set the default width. -/
def setWidth (assembler : Assembler) (width : Width) : Assembler :=
  { assembler with width := width }

/-- The default width: that of a byte unless another one is set. -/
def defaultWidth (assembler : Assembler) : Width :=
  if assembler.width.bytes = 0 then .byte else assembler.width

/-- Can source text refer to this name? -/
def isDefinable (name : Text) : Bool :=
  Token.isWord name && (Register.ofName? name).isNone &&
    (Mnemonic.ofName? name).isNone

/-- Give a name a value, in place of any older one. -/
def predefine (assembler : Assembler) (name : Text) (value : Int64) :
    Except Error Assembler :=
  if isDefinable name then
    .ok { assembler with
      constants := assembler.constants.insert name value }
  else .error (.predefine name)

/--
Assemble a source, given a language of formulas.

The source is its text, or the reason why it could not be read.
-/
def assembleWith (language : FormulaLanguage) (assembler : Assembler)
    (source : Except Text Text) : Except Error Program :=
  let width := assembler.defaultWidth
  if !width.isSupported then .error (.width width.bits)
  else
    match source with
    | .error reason => .error (.unreadable reason)
    | .ok text =>
        assembleText (language width assembler.constants) width
          assembler.constants text

end Assembler

end FlatAsm
