import FlatAsm.Formula.Operation

/-!
# Functions of formulas

The functions that every formula can call.  Further names are known without
being of use in a formula whose value is to be an integer.
-/

namespace FlatAsm.Formula

/-- The value of an integer literal in a base from 2 to 36. -/
def plainInteger? (base : Nat) (text : Text) : Option Nat :=
  if text ≠ [] ∧ text.all (isDigitIn base) then
    some (digitsValue base text)
  else none

/-- The base that the second byte of a literal after a 0 says. -/
def prefixBase? (letter : UInt8) : Option Nat :=
  if letter = 0x6f ∨ letter = 0x4f then some 8
  else if letter = 0x78 ∨ letter = 0x58 then some 16
  else if letter = 0x62 ∨ letter = 0x42 then some 2
  else none

/--
The value of an integer literal without a sign.

Base 0 stands for the base that the literal itself says, where a literal
that starts with a zero but says no base has to be zero.
-/
def unsignedInteger? (base : Nat) (text : Text) : Option Nat :=
  let automatic := if base = 0 then 10 else base
  match text with
  | 0x30 :: letter :: digits =>
      match digits, prefixBase? letter with
      | _ :: _, some said =>
          if base = 0 ∨ base = said then plainInteger? said digits
          else plainInteger? base text
      | _, _ =>
          if base = 0 then
            if (letter :: digits).all (· == 0x30) then some 0 else none
          else plainInteger? base text
  | _ => plainInteger? automatic text

/-- The value of an integer literal. -/
def integerOf? (base : Nat) (text : Text) : Option Int :=
  match text with
  | 0x2b :: rest => (unsignedInteger? base rest).map fun value => value
  | 0x2d :: rest => (unsignedInteger? base rest).map fun value => -value
  | _ => (unsignedInteger? base text).map fun value => value

/-- Read a string as an integer in a base. -/
def readInteger (base : Int) (text : Text) : Computing Value :=
  if base = 0 ∨ (2 ≤ base ∧ base ≤ 36) then
    match integerOf? base.toNat text with
    | some value => .ok (.integer value)
    | none => failed
  else failed

/-- The arguments of a call. -/
structure Arguments where
  positional : List Value
  /-- The arguments that are handed over by the names of parameters. -/
  named : List (Text × Value)

namespace Arguments

/--
The arguments of a function in the order of its parameters.

Each comes once, and only parameters at the end may have none.
-/
def ordered (parameters : List String) (arguments : Arguments) :
    Computing (List Value) :=
  let further := parameters.drop arguments.positional.length
  let values := further.map fun parameter =>
    arguments.named.lookup (Text.ascii parameter)
  let present := values.takeWhile Option.isSome
  if arguments.positional.length ≤ parameters.length ∧
      arguments.named.length = present.length then
    .ok (arguments.positional ++ present.filterMap id)
  else failed

/-- The arguments of a call, given how each value is handed over. -/
def gather (lists : Lists) : List (Passing × Value) → Computing Arguments
  | [] => .ok ⟨[], []⟩
  | (passing, value) :: rest => do
      let further ← gather lists rest
      match passing with
      | .positional =>
          return { further with positional := value :: further.positional }
      | .named parameter =>
          return { further with named := (parameter, value) :: further.named }
      | .spread =>
          let elements ← value.elements lists
          return { further with positional := elements ++ further.positional }
      | .spreadNamed => failed

/-- The arguments of a function whose parameters have no names. -/
def unnamed (arguments : Arguments) : Computing (List Value) :=
  if arguments.named.isEmpty then .ok arguments.positional else failed

end Arguments

/-- Turn a value into an integer. -/
def toInteger (_ : Lists) (arguments : Arguments) : Computing Value := do
  match ← arguments.ordered ["x", "base"] with
  | [.string text] => readInteger 10 text
  | [.string text, base] => readInteger (← base.small) text
  | [.bool value] => return .integer (if value then 1 else 0)
  | [value] => return .integer (← value.whole)
  | _ => failed

/-- The number of bytes of a string or of elements of a sequence. -/
def sizeOf (lists : Lists) (arguments : Arguments) : Computing Value := do
  match ← arguments.unnamed with
  | [.string text] => return .integer text.length
  | [.bytes values] => return .integer values.length
  | [value] => return .integer (← value.elements lists).length
  | _ => failed

/-- The absolute value of a number. -/
def absolute (_ : Lists) (arguments : Arguments) : Computing Value := do
  match ← arguments.unnamed with
  | [.integer value] => return .integer value.natAbs
  | [.float value] => return .float value.abs
  | _ => failed

/-- The code point of a string of one character, or a single byte. -/
def codePoint (_ : Lists) (arguments : Arguments) : Computing Value := do
  match ← arguments.unnamed with
  | [.string text] =>
      match Text.onlyCharacter? text with
      | some code => return .integer code
      | none => failed
  | [.bytes [byte]] => return .integer byte.toNat
  | _ => failed

/--
The value whose key comes first in a strict comparison with the others.

`best` is the first one so far, with its key.
-/
def extreme (lists : Lists) (comparison : Comparison)
    (key : Value → Computing Value) (best : Value × Value) :
    List Value → Computing Value
  | [] => .ok best.1
  | value :: rest => do
      let measure ← key value
      if ← Value.compared lists comparison measure best.2 then
        extreme lists comparison key (value, measure) rest
      else extreme lists comparison key best rest

/-- The candidates of an extreme value: arguments, or a single sequence. -/
def candidates (lists : Lists) : List Value → Computing (List Value)
  | [value] => value.elements lists
  | values => .ok values

/-- The extreme value of the arguments, or of a single sequence. -/
def extremeBy (lists : Lists) (comparison : Comparison)
    (key : Value → Computing Value) (arguments : List Value) :
    Computing Value := do
  match ← candidates lists arguments with
  | [] => failed
  | first :: rest =>
      extreme lists comparison key (first, ← key first) rest

/-- The extreme value, where every value is compared by itself. -/
def extremeOf (comparison : Comparison) (lists : Lists)
    (arguments : Arguments) : Computing Value := do
  extremeBy lists comparison .ok (← arguments.unnamed)

/-- The functions that compute something. -/
def functions : List (String × (Lists → Arguments → Computing Value)) :=
  [("len", sizeOf), ("abs", absolute), ("ord", codePoint),
    ("int", toInteger), ("min", extremeOf .less),
    ("max", extremeOf .greater)]

/-- Apply the function with a name to arguments. -/
def applyNamed (lists : Lists) (name : Text) (arguments : Arguments) :
    Computing Value :=
  match functions.find? fun entry => Text.ascii entry.1 == name with
  | some entry => entry.2 lists arguments
  | none => failed

/-- The functions that choose the value with an extreme key. -/
def choices : List (String × Comparison) :=
  [("min", .less), ("max", .greater)]

/--
Call a value with arguments.

A function that chooses among values may be given another function, by which
it compares them.
-/
def call (lists : Lists) (function : Value) (arguments : Arguments) :
    Computing Value :=
  match function with
  | .function name =>
      let choice := choices.find? fun entry => Text.ascii entry.1 == name
      match choice, arguments.named with
      | some (_, comparison), [(parameter, .function key)] =>
          if parameter = Text.ascii "key" then
            extremeBy lists comparison
              (fun value => applyNamed lists key ⟨[value], []⟩)
              arguments.positional
          else failed
      | _, _ => applyNamed lists name arguments
  | _ => failed

/-- The names of functions that are known. -/
def functionNames : List String :=
  ["abs", "all", "any", "bool", "bytes", "chr", "dict", "dir", "enumerate",
    "fail", "float", "getattr", "hasattr", "hash", "int", "len", "list",
    "max", "min", "ord", "print", "range", "repr", "reversed", "sorted",
    "str", "tuple", "type", "zip"]

/-- The names that every formula knows. -/
def universal : List (Text × Value) :=
  (Text.ascii "None", .nothing) :: (Text.ascii "True", .bool true) ::
    (Text.ascii "False", .bool false) ::
    functionNames.map fun name =>
      (Text.ascii name, .function (Text.ascii name))

end FlatAsm.Formula
