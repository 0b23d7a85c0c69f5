import FlatAsm.Code
import FlatAsm.LittleEndian

/-!
# Machine images

An image grows as code is written to it.  A field whose value depends on
labels is written with its base, and a relocation for each label is kept
until the addresses of all labels are known.

Any width can be asked for.  The work breaks off where a field has no mask,
and where a relocation is for bytes that the image does not have.
-/

namespace FlatAsm

/-- A multiple of a label's address that is still to be added to a field. -/
structure Relocation where
  offset : Nat
  symbol : Text
  coefficient : Int64
  width : Width
  /-- The line of the instruction that the field belongs to. -/
  line : Int
  deriving DecidableEq, Repr

/-- A value, dependent on labels, that has to be a byte in the end. -/
structure ByteCheck where
  offset : Nat
  value : SymInt
  line : Int
  deriving DecidableEq, Repr

/-- A machine image under construction. -/
structure Image where
  data : Array UInt8
  /-- The address of every label declared so far. -/
  symbols : Table Int
  /-- The relocations, in the order of their fields. -/
  relocations : Array Relocation
  /-- The checks, in the order of their values. -/
  checks : Array ByteCheck
  deriving DecidableEq, Repr

namespace Image

/-- The image without content. -/
def empty : Image :=
  ⟨#[], ∅, #[], #[]⟩

/-- Where the next byte goes. -/
def offset (image : Image) : Nat :=
  image.data.size

/-- Append bytes. -/
def write (image : Image) (bytes : List UInt8) : Image :=
  { image with data := image.data ++ bytes }

/-- The relocations of a value that is written at an offset. -/
def relocationsFor (offset : Nat) (value : SymInt) (width : Width)
    (line : Int) : List Relocation :=
  value.terms.map fun term => ⟨offset, term.1, term.2, width, line⟩

/-- Append a field with the base of a value, and keep its relocations. -/
def writeInteger (image : Image) (value : SymInt) (width : Width)
    (line : Int) : Except Breakdown Image :=
  match width.fieldOf value.base.toUInt64 with
  | .error reason => .error reason
  | .ok bytes =>
      let added := relocationsFor image.offset value width line
      .ok { image with
        data := image.data ++ bytes
        relocations := image.relocations ++ added }

/-- Keep in mind that the next value has to be a byte. -/
def checkByte (image : Image) (value : SymInt) (line : Int) : Image :=
  { image with
    checks := image.checks.push ⟨image.offset, value, line⟩ }

/-- Give a label an address. -/
def define (image : Image) (label : Text) (address : Int) : Image :=
  { image with symbols := image.symbols.insert label address }

/-- Append a field of an instruction's code. -/
def emitField (line : Int) (image : Image) (field : Field) :
    Except Breakdown Image :=
  if field.isByte && !field.value.isConstant then
    (image.checkByte field.value line).writeInteger
      field.value field.width line
  else image.writeInteger field.value field.width line

/-- Append the code of an instruction. -/
def emit (image : Image) (code : Code) (line : Int) :
    Except Breakdown Image :=
  code.fields.foldlM (emitField line) (image.write code.bytes)

/-- The bytes of a field. -/
def fieldBytes (data : Array UInt8) (offset size : Nat) : List UInt8 :=
  (data.extract offset (offset + size)).toList

/-- Put bytes in the place of those at an offset. -/
def overwrite (data : Array UInt8) (offset : Nat) :
    List UInt8 → Array UInt8
  | [] => data
  | byte :: rest =>
      overwrite (data.setIfInBounds offset byte) (offset + 1) rest

/-- Add to a field what a relocation of it asks for. -/
def patch (symbols : Table Int) (data : Array UInt8)
    (relocation : Relocation) : Except Breakdown (Array UInt8) :=
  let offset := relocation.offset
  let width := relocation.width
  if width.bytes < 0 ∨ data.size < offset + width.size then
    .error .sliceBounds
  else
    let address := (symbols.find? relocation.symbol).getD 0
    let old := LittleEndian.read (fieldBytes data offset width.size)
    let added := relocation.coefficient * Int64.ofInt address
    match width.fieldOf (old + added.toUInt64) with
    | .error reason => .error reason
    | .ok bytes => .ok (overwrite data offset bytes)

/-- Add to all fields what the relocations ask for. -/
def patchAll (image : Image) : Except Breakdown Image :=
  match image.relocations.foldlM (patch image.symbols) image.data with
  | .error reason => .error reason
  | .ok data => .ok { image with data := data }

/-- The first relocation whose label has no address. -/
def unresolved? (image : Image) : Option Relocation :=
  image.relocations.find? fun relocation =>
    !image.symbols.contains relocation.symbol

/-- Does a value that has to be a byte come out as something else? -/
def failsCheck (image : Image) (check : ByteCheck) : Bool :=
  let value := (check.value.resolve image.symbols).1
  value < 0 || value > 0xff

/--
Add the addresses of the labels to all fields that depend on them, and check
the values that have to be bytes.

Nothing is added if a label has no address.  Where a check fails the fields
are filled in all the same.
-/
def applyRelocations (image : Image) :
    Except Breakdown (Image × Option Error) :=
  match image.unresolved? with
  | some relocation =>
      .ok (image, some (.labelMissing relocation.line relocation.symbol))
  | none =>
      match image.patchAll with
      | .error reason => .error reason
      | .ok patched =>
          match image.checks.find? image.failsCheck with
          | some check =>
              .ok (patched,
                some (.operand check.line (Text.ascii "data") .dataRange))
          | none => .ok (patched, none)

end Image

end FlatAsm
