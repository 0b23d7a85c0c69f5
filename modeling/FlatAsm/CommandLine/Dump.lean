import FlatAsm.Program

/-!
# Dumps

A dump shows the labels of a program with their addresses, one below the
other in a column, and then a line for every statement.
-/

namespace FlatAsm.CommandLine

/-- A number in hexadecimal, with at least four digits. -/
def hexOffset (offset : Nat) : Text :=
  Text.hexDigits (max 4 (Nat.toDigits 16 offset).length) offset

/-- A label in double quotes and a colon. -/
def shownLabel (label : Text) : Text :=
  Text.quoted label ++ [0x3a]

/-- The labels with their addresses. -/
def shownSymbols (symbols : Table Int) : Text :=
  let heading := Text.ascii "Symbols: map[string]int\x7b"
  let size := symbols.entries.foldl
    (fun size entry => max size (shownLabel entry.1).length) 0
  let line (entry : Text × Int) : Text :=
    Text.ascii "  " ++ Text.padRight (size + 1) (shownLabel entry.1) ++
      Text.ofInt entry.2 ++ Text.ascii ",\n"
  match symbols.entries with
  | [] => heading ++ Text.ascii "\x7d\n"
  | entries =>
      heading ++ 0x0a :: (entries.map line).flatten ++ Text.ascii "\x7d\n"

/-- A statement: its offset, bytes, line and source text. -/
def shownStatement (entry : Statement × List UInt8) : Text :=
  hexOffset entry.1.offset ++ Text.ascii "  " ++
    Text.padRight 16 (entry.2.map Text.hexByte).flatten ++
    Text.ascii "  " ++ Text.padLeft 5 (Text.ofInt entry.1.line) ++
    Text.ascii "  " ++ entry.1.instruction.text ++ [0x0a]

/-- The labels and statements of a program. -/
def dump (program : Program) : Text :=
  shownSymbols program.symbols ++
    (program.listing.map shownStatement).flatten

end FlatAsm.CommandLine
