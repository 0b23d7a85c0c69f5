import FlatAsm.Assembler
import FlatAsm.CommandLine.Dump
import FlatAsm.CommandLine.Options
import FlatAsm.CommandLine.System

/-!
# A run of the command

A run reads its source, assembles it and writes the image, to standard
output or to a file.  It reaches all of them through the operations of a
system.  Either it writes the whole image to one place or it says why it does
not; and then it has written nothing, unless standard output itself broke off.

The language of formulas is a parameter, as it is for an assembler.
-/

namespace FlatAsm.CommandLine

/-- Apply a definition `NAME=VALUE` to an assembler. -/
def define (assembler : Assembler) (definition : Text) :
    Except Failure Assembler :=
  match Text.cut 0x3d definition with
  | none | some ([], _) => .error (.definition definition)
  | some (name, value) =>
      match readInteger value with
      | .error fault => .error (.definitionValue definition value fault)
      | .ok number =>
          match assembler.predefine name (Int64.ofInt number) with
          | .error error => .error (.setting error)
          | .ok defined => .ok defined

/-- The assembler that options ask for. -/
def configure (options : Options) : Except Failure Assembler :=
  match Width.ofBits? options.width with
  | none => .error (.setting (.width options.width))
  | some width =>
      options.defines.foldlM define (Assembler.initial.setWidth width)

/-- Get hold of a source that has been opened, if it could be. -/
def readOpened (source : Text) (opened : Except FileFault Entry) :
    Except Failure (Except Text Text) :=
  match opened with
  | .error fault => .error (.file source fault)
  | .ok (.file contents) => .ok (.ok contents)
  | .ok _ =>
      .ok (.error (Text.ascii "read " ++ source ++ Text.ascii ": " ++
        FileFault.directory.reason))

section

variable {m : Type → Type} [Monad m] (language : FormulaLanguage)
  (system : System m)

/-- Get hold of a source; a directory opens, but cannot be read. -/
def readSource (source : Text) : ExceptT Failure m (Except Text Text) := do
  if source = [0x2d] then system.readInput
  else readOpened source (← system.openFile source)

/-- Write an image where options ask for it. -/
def deliver (options : Options) (image : Array UInt8) :
    ExceptT Failure m Unit := do
  if options.output = [0x2d] then
    if (← system.isTerminal) && !options.force then throw .terminal
    else
      match ← system.writeOutput image with
      | .error reason => throw (.output reason)
      | .ok _ => return ()
  else
    match ← system.writeFile options.output image with
    | .error fault => throw (.file options.output fault)
    | .ok _ => return ()

/-- Run with given options on a source. -/
def run (options : Options) (source : Text) : ExceptT Failure m Unit := do
  let assembler ← configure options
  match assembler.assembleWith language (← readSource system source) with
  | .error error => throw (.assembly source error)
  | .ok program =>
      if options.dump then system.notify (dump program)
      deliver system options program.binary

/-- Run with the arguments of a command line. -/
def execute (arguments : List Text) : ExceptT Failure m Unit := do
  let (options, source) ← parseArguments arguments
  run language system options source

end

end FlatAsm.CommandLine
