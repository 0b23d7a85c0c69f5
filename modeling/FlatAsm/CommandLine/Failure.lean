import FlatAsm.CommandLine.Number
import FlatAsm.Error

/-!
# Failures of a run

Everything that can keep a run of the command from writing an image, and
what is said about it.
-/

namespace FlatAsm.CommandLine

/-- What keeps a file from being opened. -/
inductive FileFault where
  | absent
  | directory
  | notDirectory
  /-- The path, or a name in it, has too many bytes. -/
  | tooLong
  /-- The path has a zero byte. -/
  | invalid
  /-- The path leads somewhere, but the system refuses. -/
  | refused (reason : Text)
  deriving DecidableEq, Repr

namespace FileFault

/-- The fault in words. -/
def reason : FileFault → Text
  | .absent => Text.ascii "no such file or directory"
  | .directory => Text.ascii "is a directory"
  | .notDirectory => Text.ascii "not a directory"
  | .tooLong => Text.ascii "file name too long"
  | .invalid => Text.ascii "invalid argument"
  | .refused reason => reason

end FileFault

/-- Why a run has failed. -/
inductive Failure where
  | unknownFlag (name : Text)
  | unknownLetter (letter : UInt8) (letters : Text)
  /-- A flag that stands last and has no value. -/
  | valueMissing (argument : Text)
  | letterValueMissing (letter : UInt8) (letters : Text)
  /-- An argument that is neither a flag nor anything else. -/
  | badFlag (argument : Text)
  | valueInvalid (value flag complaint : Text)
  | argumentCount (count : Nat)
  /-- A definition without a name or a value. -/
  | definition (text : Text)
  | definitionValue (text value : Text) (fault : ValueFault)
  /-- A setting that the assembler does not take. -/
  | setting (error : Error)
  | file (path : Text) (fault : FileFault)
  /-- The image would go to a terminal. -/
  | terminal
  /-- Standard output cannot be written to. -/
  | output (reason : Text)
  | assembly (source : Text) (error : Error)
  deriving DecidableEq, Repr

namespace Failure

/-- The failure in words. -/
def message : Failure → Text
  | .unknownFlag name => Text.ascii "unknown flag: --" ++ name
  | .unknownLetter letter letters =>
      Text.ascii "unknown shorthand flag: " ++
        Text.quotedCharacter letter.toNat ++ Text.ascii " in -" ++ letters
  | .valueMissing argument =>
      Text.ascii "flag needs an argument: " ++ argument
  | .letterValueMissing letter letters =>
      Text.ascii "flag needs an argument: " ++
        Text.quotedCharacter letter.toNat ++ Text.ascii " in -" ++ letters
  | .badFlag argument => Text.ascii "bad flag syntax: " ++ argument
  | .valueInvalid value flag complaint =>
      Text.ascii "invalid argument " ++ Text.quoted value ++
        Text.ascii " for " ++ Text.quoted flag ++ Text.ascii " flag: " ++
        complaint
  | .argumentCount count =>
      Text.ascii "accepts 1 arg(s), received " ++ Text.ofNat count
  | .definition text =>
      Text.fill (Text.ascii "-D %v: expected NAME=VALUE") [.text text]
  | .definitionValue text value fault =>
      Text.ascii "-D " ++ text ++ Text.ascii ": " ++
        integerComplaint value fault
  | .setting error => error.message
  | .file path fault =>
      Text.ascii "open " ++ path ++ Text.ascii ": " ++ fault.reason
  | .terminal =>
      Text.ascii "refusing to write binary to a terminal, use --force"
  | .output reason => reason
  | .assembly source error => source ++ Text.ascii ": " ++ error.message

end Failure

end FlatAsm.CommandLine
