import FlatAsm.CommandLine.FileSystem

/-!
# What a run can do

A run reaches files and standard streams through a few operations only.  They
are given for the world of this module, which is a value that they change and
which keeps a record of what has been accessed.
-/

namespace FlatAsm.CommandLine

/-- The operations by which a run reaches what is around it. -/
structure System (m : Type → Type) where
  /-- All of standard input, or the reason why it could not be read. -/
  readInput : m (Except Text Text)
  /-- What opening a file for reading finds: text, or a directory. -/
  openFile : Text → m (Except FileFault Entry)
  /-- Show a text on standard error. -/
  notify : Text → m Unit
  /-- Is standard output a terminal? -/
  isTerminal : m Bool
  /--
  Write an image to standard output; it may fail with a reason.

  Part of the image may have been written then.
  -/
  writeOutput : Array UInt8 → m (Except Text Unit)
  /-- Write an image to a file, in place of any older one. -/
  writeFile : Text → Array UInt8 → m (Except FileFault Unit)

/-- Something that a run has accessed. -/
inductive Access where
  | input
  /-- A file has been opened for reading, whether there is one or not. -/
  | opened (path : Text)
  | output
  /-- A file has been written. -/
  | stored (path : Text)
  deriving DecidableEq, Repr

namespace Access

/-- Has something been written? -/
def isWriting : Access → Bool
  | .input | .opened _ => false
  | .output | .stored _ => true

end Access

/-- Standard output breaks off while it is written to. -/
structure Interruption where
  /-- How many bytes are written until then. -/
  taken : Nat
  /-- Why no more of them are. -/
  reason : Text
  deriving DecidableEq, Repr

/-- What is around a run. -/
structure World where
  /-- What standard input holds. -/
  input : Text
  files : FileSystem
  /-- Is standard output a terminal? -/
  isTerminal : Bool
  /-- The reasons why accesses are refused, whatever the files are. -/
  refusals : Access → Option Text := fun _ => none
  /-- What keeps standard output from taking all that is written to it. -/
  interruption : Option Interruption := none
  /-- What has been written to standard output. -/
  output : Text := []
  /-- What has been shown on standard error. -/
  shown : Text := []
  /-- Everything that has been accessed, in order. -/
  accesses : List Access := []

namespace World

/-- What an access gives, unless it is refused. -/
def unlessRefused {ε α : Type} (world : World) (access : Access)
    (fault : Text → ε) (granted : Except ε α) : Except ε α :=
  match world.refusals access with
  | some reason => .error (fault reason)
  | none => granted

/-- Keep a record of an access. -/
def record (world : World) (access : Access) : World :=
  { world with accesses := world.accesses ++ [access] }

/-- The world after a text has been shown on standard error. -/
def display (world : World) (text : Text) : World :=
  { world with shown := world.shown ++ text }

/-- The world after bytes have been written to standard output. -/
def append (world : World) (bytes : Text) : World :=
  { world with output := world.output ++ bytes }.record .output

/-- What comes of an image that is written to standard output. -/
def writeOutput (image : Array UInt8) (world : World) :
    Except Text Unit × World :=
  match world.refusals .output, world.interruption with
  | some reason, _ => (.error reason, world)
  | none, none => (.ok (), world.append image.toList)
  | none, some interruption =>
      (.error interruption.reason,
        world.append (image.toList.take interruption.taken))

/-- The world after a file has been written. -/
def store (world : World) (path : Text) (files : FileSystem) : World :=
  { world with files := files }.record (.stored path)

/--
The operations on a world.

A file is written as a whole or not at all, while standard output may break
off on the way.
-/
def system : System (StateM World) where
  readInput := fun world =>
    (world.unlessRefused .input id (.ok world.input), world.record .input)
  openFile := fun path world =>
    (world.unlessRefused (.opened path) .refused
      (world.files.openForReading path), world.record (.opened path))
  notify := fun text world => ((), world.display text)
  isTerminal := fun world => (world.isTerminal, world)
  writeOutput := writeOutput
  writeFile := fun path image world =>
    match world.unlessRefused (.stored path) .refused
      (world.files.write path image.toList) with
    | .error fault => (.error fault, world)
    | .ok files => (.ok (), world.store path files)

/-- What comes of an action in a world, and the world after it. -/
def perform {ε α : Type} (world : World)
    (action : ExceptT ε (StateM World) α) : Except ε α × World :=
  action.run.run world

end World

end FlatAsm.CommandLine
