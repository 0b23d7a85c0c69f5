import FlatAsm.CommandLine.Failure

/-!
# Options

Flags may stand anywhere among the arguments.  A long flag is written
`--flag=value` or `--flag value`, a short one `-f value`, `-fvalue` or
`-f=value`.  Whatever follows a flag that takes a value is that value.  Two
dashes end the flags, and a single dash is an argument like any other.  An
argument that starts with `-test.` is left to whoever tests the program.
-/

namespace FlatAsm.CommandLine

/-- What a run is asked to do. -/
structure Options where
  /-- Where the image goes; a dash stands for standard output. -/
  output : Text
  /-- The default width, in bits. -/
  width : Int
  /-- The definitions, in the order they are given. -/
  defines : List Text
  /-- Show labels and listing. -/
  dump : Bool
  /-- Write the image even to a terminal. -/
  force : Bool
  deriving DecidableEq, Repr

namespace Options

/-- The options of a run without flags. -/
def initial : Options :=
  ⟨[0x2d], 8, [], false, false⟩

end Options

/-- A flag. -/
inductive Flag where
  | output
  | width
  | define
  | dump
  | force
  deriving DecidableEq, Repr

namespace Flag

/-- The flags with their names. -/
def named : List (Text × Flag) :=
  [(Text.ascii "output", .output), (Text.ascii "width", .width),
    (Text.ascii "define", .define), (Text.ascii "dump", .dump),
    (Text.ascii "force", .force)]

/-- The flags that have a letter. -/
def lettered : List (UInt8 × Flag) :=
  [(0x6f, .output), (0x44, .define)]

/-- The flag as a complaint shows it. -/
def shown : Flag → Text
  | .output => Text.ascii "-o, --output"
  | .width => Text.ascii "--width"
  | .define => Text.ascii "-D, --define"
  | .dump => Text.ascii "--dump"
  | .force => Text.ascii "--force"

/-- The value of a flag that stands alone, if it can. -/
def impliedValue? : Flag → Option Text
  | .dump | .force => some (Text.ascii "true")
  | _ => none

/-- The value of a switch. -/
def readSwitch (flag : Flag) (value : Text) : Except Failure Bool :=
  match readBool value with
  | .ok state => .ok state
  | .error fault =>
      .error (.valueInvalid value flag.shown (boolComplaint value fault))

/-- Set a flag to a value. -/
def set (flag : Flag) (options : Options) (value : Text) :
    Except Failure Options :=
  match flag with
  | .output => .ok { options with output := value }
  | .width =>
      match readInteger value with
      | .ok bits => .ok { options with width := bits }
      | .error fault =>
          .error
            (.valueInvalid value flag.shown (integerComplaint value fault))
  | .define => .ok { options with defines := options.defines ++ [value] }
  | .dump => do return { options with dump := ← flag.readSwitch value }
  | .force => do return { options with force := ← flag.readSwitch value }

end Flag

/-- Does an argument have the form of a flag? -/
def isFlag (argument : Text) : Bool :=
  argument.take 1 == [0x2d] && 1 < argument.length

/-- Is the argument meant for whoever tests the program? -/
def isForTesting (argument : Text) : Bool :=
  (Text.ascii "-test.").isPrefixOf argument

/-- A flag as an argument writes it. -/
structure Written where
  flag : Flag
  /-- The value, if the argument holds it. -/
  held : Option Text
  /-- What to say if there is no value at all. -/
  missing : Failure

/-- Recognise an argument that starts with two dashes. -/
def recogniseLong (argument : Text) : Except Failure Written :=
  let body := argument.drop 2
  if body.take 1 = [] ∨ body.take 1 = [0x2d] ∨ body.take 1 = [0x3d] then
    .error (.badFlag argument)
  else
    let (name, held) :=
      match Text.cut 0x3d body with
      | some (name, value) => (name, some value)
      | none => (body, none)
    match Flag.named.lookup name with
    | none => .error (.unknownFlag name)
    | some flag => .ok ⟨flag, held, .valueMissing argument⟩

/-- Recognise an argument that starts with a single dash. -/
def recogniseShort (argument : Text) : Except Failure Written :=
  match argument.drop 1 with
  | [] => .error (.badFlag argument)
  | letter :: after =>
      match Flag.lettered.lookup letter with
      | none => .error (.unknownLetter letter (letter :: after))
      | some flag =>
          let held :=
            match after with
            | [] => none
            | 0x3d :: byte :: value => some (byte :: value)
            | value => some value
          .ok ⟨flag, held, .letterValueMissing letter (letter :: after)⟩

/-- Recognise an argument that has the form of a flag. -/
def recognise (argument : Text) : Except Failure Written :=
  if argument.take 2 = [0x2d, 0x2d] then recogniseLong argument
  else recogniseShort argument

/-- The value of a flag, and the arguments after it. -/
def takeValue (written : Written) (rest : List Text) :
    Except Failure (Text × List Text) :=
  match written.held, written.flag.impliedValue?, rest with
  | some value, _, _ => .ok (value, rest)
  | none, some value, _ => .ok (value, rest)
  | none, none, value :: others => .ok (value, others)
  | none, none, [] => .error written.missing

theorem takeValue_length_le {written : Written} {rest rest' : List Text}
    {value : Text} (result : takeValue written rest = .ok (value, rest')) :
    rest'.length ≤ rest.length := by
  unfold takeValue at result
  split at result <;> cases result <;> simp

/-- Read arguments, given the options and the plain arguments before them. -/
def readArguments (options : Options) (plain : List Text)
    (arguments : List Text) : Except Failure (Options × List Text) :=
  match arguments with
  | [] => .ok (options, plain)
  | argument :: rest =>
      if argument = [0x2d, 0x2d] then .ok (options, plain ++ rest)
      else if isForTesting argument then readArguments options plain rest
      else if isFlag argument then
        match recognise argument with
        | .error failure => .error failure
        | .ok written =>
            match _value : takeValue written rest with
            | .error failure => .error failure
            | .ok (value, rest') =>
                match written.flag.set options value with
                | .error failure => .error failure
                | .ok options' => readArguments options' plain rest'
      else readArguments options (plain ++ [argument]) rest
termination_by arguments.length
decreasing_by
  · exact Nat.lt_succ_self _
  · exact Nat.lt_succ_of_le (takeValue_length_le _value)
  · exact Nat.lt_succ_self _

/-- The options and the one source that some arguments name. -/
def parseArguments (arguments : List Text) :
    Except Failure (Options × Text) := do
  match ← readArguments .initial [] arguments with
  | (options, [source]) => return (options, source)
  | (_, plain) => .error (.argumentCount plain.length)

end FlatAsm.CommandLine
