import FlatAsm.CommandLine.Run
import FlatAsm.Formula.Run

/-!
# The command

Connects a run to the files and the standard streams of the system.
-/

namespace FlatAsm.CommandLine

/-- Everything that can be read from a stream. -/
partial def readToEnd (stream : IO.FS.Stream) (before : ByteArray) :
    IO ByteArray := do
  let chunk ← stream.read 65536
  if chunk.isEmpty then return before
  else readToEnd stream (before ++ chunk)

/-- A text as a path of the system. -/
def pathOf (text : Text) : String :=
  (String.fromUTF8? ⟨text.toArray⟩).getD ""

/-- What an error of the system says. -/
def reasonOf (error : IO.Error) : Text :=
  error.toString.toUTF8.toList

/-- What has kept a file from being opened. -/
def faultOf : IO.Error → FileFault
  | .noFileOrDirectory .. => .absent
  | .inappropriateType .. => .directory
  | .resourceExhausted .. => .tooLong
  | .invalidArgument .. => .invalid
  | error => .refused (reasonOf error)

/-- Open and read a file of the system. -/
def openOnDisk (path : Text) : IO (Except FileFault Entry) := do
  try
    let contents ← IO.FS.readBinFile (pathOf path)
    return .ok (.file contents.toList)
  catch
    | .inappropriateType .. => return .ok .directory
    | error => return .error (faultOf error)

/-- The files and the standard streams of the system. -/
def onDisk : System IO where
  readInput := do
    try
      let input ← readToEnd (← IO.getStdin) .empty
      return .ok input.toList
    catch error => return .error (reasonOf error)
  openFile := openOnDisk
  notify text := do (← IO.getStderr).write ⟨text.toArray⟩
  isTerminal := do (← IO.getStdout).isTty
  writeOutput image := do
    try
      let stream ← IO.getStdout
      stream.write ⟨image⟩
      stream.flush
      return .ok ()
    catch error => return .error (reasonOf error)
  writeFile path image := do
    try
      IO.FS.writeBinFile (pathOf path) ⟨image⟩
      return .ok ()
    catch error => return .error (faultOf error)

/-- Say why a run has failed. -/
def report (failure : Failure) : IO UInt32 := do
  let stream ← IO.getStderr
  stream.write ⟨(failure.message ++ [0x0a]).toArray⟩
  return 1

end FlatAsm.CommandLine

/-- Assemble the source that the arguments name. -/
def main (arguments : List String) : IO UInt32 := do
  let texts := arguments.map fun argument => argument.toUTF8.toList
  let outcome ←
    (FlatAsm.CommandLine.execute FlatAsm.Formula.evaluate
      FlatAsm.CommandLine.onDisk texts).run
  match outcome with
  | .error failure => FlatAsm.CommandLine.report failure
  | .ok _ => return 0
