import FlatAsm.Text.Directive

/-!
# Message templates

A message is a template with a placeholder for each argument.  A placeholder
is a percent sign, a directive and a verb: `%d` and `%v` show a number with
its digits grouped, `%v` and `%s` show a text as it is, `%q` quotes and `%%`
is a percent sign.  A placeholder that does not suit its argument, or has
none, shows up in the message instead of failing.
-/

namespace FlatAsm.Text

/-- What a placeholder can be filled with. -/
inductive Argument where
  | number (value : Int)
  | character (code : Int)
  | text (value : Text)
  deriving DecidableEq, Repr

namespace Argument

/-- The name of an argument's type. -/
def typeName : Argument → Text
  | .number _ => ascii "int"
  | .character _ => ascii "int32"
  | .text _ => ascii "string"

/-- The argument in its usual form. -/
def usual (directive : Directive) : Argument → Text
  | .number value => directive.decimal value
  | .character code => directive.decimal code
  | .text value =>
      if directive.literal then directive.quotedText value
      else directive.text value

/-- The argument with the name of its type, as a complaint shows it. -/
def described (directive : Directive) (argument : Argument) : Text :=
  argument.typeName ++ 0x3d :: argument.usual directive

/-- A complaint about a placeholder. -/
def complaint (verb : Nat) (about : Text) : Text :=
  ascii "%!" ++ ofCharacter verb ++ 0x28 :: about ++ [0x29]

/-- The complaint about an argument that a placeholder cannot show. -/
def misfit (directive : Directive) (verb : Nat) (argument : Argument) :
    Text :=
  complaint verb (argument.described directive)

/-- A number in the form that a verb asks for, if there is one. -/
def shownNumber? (directive : Directive) (verb : Nat) (value : Int) :
    Option Text :=
  match verb with
  | 0x64 => some (directive.decimal value)
  | 0x62 => some (directive.inBase 2 false value)
  | 0x6f => some (directive.inBase 8 false value)
  | 0x78 => some (directive.inBase 16 false value)
  | 0x58 => some (directive.inBase 16 true value)
  | 0x63 => some (directive.character value)
  | 0x71 =>
      if 0 ≤ value ∧ value ≤ 0x10ffff then
        some (directive.quotedCharacter value.toNat)
      else none
  | 0x55 => some (directive.codePoint value)
  | _ => none

/-- A text in the form that a verb asks for, if there is one. -/
def shownText? (directive : Directive) (verb : Nat) (value : Text) :
    Option Text :=
  match verb with
  | 0x73 => some (directive.text value)
  | 0x78 => some (directive.hexText false value)
  | 0x58 => some (directive.hexText true value)
  | 0x71 => some (directive.quotedText value)
  | 0x6d => some value
  | _ => none

/-- The argument in the form that a verb asks for, if there is one. -/
def shown? (directive : Directive) (verb : Nat) (argument : Argument) :
    Option Text :=
  if verb = 0x54 then some (directive.text argument.typeName)
  else if verb = 0x76 then
    some (argument.usual
      { directive with
        plus := false, sharp := false, literal := directive.sharp })
  else
    match argument with
    | .number value => shownNumber? directive verb value
    | .character code => shownNumber? directive verb code
    | .text value => shownText? directive verb value

/-- The argument in place of a placeholder. -/
def shown (directive : Directive) (verb : Nat) (argument : Argument) :
    Text :=
  match argument.shown? directive verb with
  | some form => form
  | none => argument.misfit directive verb

/-- Is the argument shown as a decimal number with grouped digits? -/
def isGrouped (directive : Directive) (verb : Nat) (argument : Argument) :
    Bool :=
  match argument with
  | .text _ => false
  | .number value | .character value =>
      !directive.isUngrouped && verb ≠ 0x54 &&
        (verb = 0x64 || (shownNumber? directive verb value).isNone)

/-- The column of the last decimal number once the argument is shown. -/
def columnAfter (directive : Directive) (verb : Nat)
    (argument : Argument) : Option Column :=
  if argument.isGrouped directive verb then directive.column?
  else directive.previous

/-- The argument as a width or a precision, which have to be moderate. -/
def measure? : Argument → Option Int
  | .number value | .character value =>
      if -1000000 ≤ value ∧ value ≤ 1000000 then some value else none
  | .text _ => none

end Argument

/-- What has been read of a placeholder after its percent sign. -/
structure Placeholder where
  directive : Directive
  /-- How many bytes have been read. -/
  taken : Nat
  /-- The number of the next argument, counted from zero. -/
  next : Nat
  /-- Has any placeholder so far said which argument it takes? -/
  reordered : Bool
  /-- Do all such numbers in this placeholder name an argument? -/
  good : Bool
  /-- What is said about an argument that is no width or precision. -/
  remark : Text
  /-- Has the number of an argument just been read? -/
  afterNumber : Bool

namespace Placeholder

/-- Set what a flag asks for, if the byte is one. -/
def flag? (directive : Directive) (byte : UInt8) : Option Directive :=
  match byte with
  | 0x23 => some { directive with sharp := true }
  | 0x30 => some { directive with zero := !directive.minus }
  | 0x2b => some { directive with plus := true }
  | 0x2d => some { directive with minus := true, zero := false }
  | 0x20 => some { directive with space := true }
  | _ => none

/-- Read the flags at the front of a text. -/
def readFlags (directive : Directive) (taken : Nat) :
    Text → Directive × Nat
  | [] => (directive, taken)
  | byte :: rest =>
      match flag? directive byte with
      | some next => readFlags next (taken + 1) rest
      | none => (directive, taken)

/--
A number at the front of a text, and its size in bytes.

One that is too long to be meant takes the rest of the text with it.
-/
def readNumber (text : Text) : Option Nat × Nat :=
  let digits := text.takeWhile isDigit
  let value (digits : Text) : Nat :=
    digits.foldl (fun value digit => 10 * value + digitValue digit) 0
  if digits = [] then (none, 0)
  else if 1000000 < value digits.dropLast then (none, text.length)
  else (some (value digits), digits.length)

/-- The number of an argument between brackets. -/
def argumentNumber? (content : Text) : Option Nat :=
  match readNumber content with
  | (some number, size) => if size = content.length then some number else none
  | (none, _) => none

/-- Read the number of an argument in brackets, if it stands there. -/
def readArgumentNumber (count : Nat) (text : Text)
    (reading : Placeholder) : Placeholder :=
  match text.drop reading.taken with
  | 0x5b :: after =>
      let marked := { reading with reordered := true, afterNumber := false }
      match cut 0x5d after with
      | none => { marked with taken := reading.taken + 1, good := false }
      | some (content, _) =>
          let past := { marked with taken := reading.taken + content.length + 2 }
          match argumentNumber? content with
          | none =>
              if content = [] ∧ after.length = 1 then
                { marked with taken := reading.taken + 1, good := false }
              else { past with good := false }
          | some number =>
              if 1 ≤ number ∧ number ≤ count then
                { past with next := number - 1, afterNumber := true }
              else { past with good := false, afterNumber := true }
  | _ => { reading with afterNumber := false }

/-- Take the next argument as a width or a precision. -/
def takeMeasure (arguments : List Argument) (reading : Placeholder) :
    Option Int × Placeholder :=
  let past :=
    { reading with taken := reading.taken + 1, afterNumber := false }
  match arguments[reading.next]? with
  | none => (none, past)
  | some argument =>
      (argument.measure?, { past with next := reading.next + 1 })

/-- Read the width. -/
def readWidth (arguments : List Argument) (text : Text)
    (reading : Placeholder) : Placeholder :=
  if (text.drop reading.taken).take 1 = [0x2a] then
    let (measure, past) := takeMeasure arguments reading
    match measure with
    | none => { past with remark := ascii "%!(BADWIDTH)" }
    | some width =>
        let wide := { past.directive with width := some width.natAbs }
        { past with
          directive :=
            if width < 0 then { wide with minus := true, zero := false }
            else wide }
  else
    let (width, size) := readNumber (text.drop reading.taken)
    { reading with
      directive := { reading.directive with width := width }
      taken := reading.taken + size
      good := reading.good && !(reading.afterNumber && width.isSome) }

/-- Read the precision, which a point precedes. -/
def readPrecision (arguments : List Argument) (text : Text)
    (reading : Placeholder) : Placeholder :=
  match text.drop reading.taken with
  | 0x2e :: _ :: _ =>
      let numbered :=
        readArgumentNumber arguments.length text
          { reading with
            taken := reading.taken + 1
            good := reading.good && !reading.afterNumber }
      if (text.drop numbered.taken).take 1 = [0x2a] then
        let (measure, past) := takeMeasure arguments numbered
        match measure.filter (0 ≤ ·) with
        | none => { past with remark := ascii "%!(BADPREC)" }
        | some precision =>
            { past with
              directive :=
                { past.directive with precision := some precision.toNat } }
      else
        let (precision, size) := readNumber (text.drop numbered.taken)
        { numbered with
          directive :=
            { numbered.directive with precision := some (precision.getD 0) }
          taken := numbered.taken + size }
  | _ => reading

/--
Read all of a placeholder between its percent sign and its verb.

`previous` is the column of the last decimal number before it.
-/
def read (arguments : List Argument) (next : Nat) (reordered : Bool)
    (previous : Option Column) (text : Text) : Placeholder :=
  let (directive, taken) :=
    readFlags { Directive.plain with previous := previous } 0 text
  let start : Placeholder :=
    ⟨directive, taken, next, reordered, true, [], false⟩
  let measured :=
    readPrecision arguments text
      (readWidth arguments text
        (readArgumentNumber arguments.length text start))
  if measured.afterNumber then measured
  else readArgumentNumber arguments.length text measured

end Placeholder

/--
The complaint about arguments that no placeholder has taken.

There is none if no argument at all has been used, so that a template
without placeholders stands for itself, or if the template orders its
arguments itself.
-/
def surplus (arguments : List Argument) (next : Nat) (reordered : Bool) :
    Text :=
  if reordered ∨ next = 0 ∨ arguments.length ≤ next then []
  else
    ascii "%!(EXTRA " ++
      join (ascii ", ")
        ((arguments.drop next).map (Argument.described .plain)) ++ [0x29]

/--
Fill in placeholders from left to right.

`next` is the number of the next argument, `reordered` says whether any
placeholder so far has said which argument it takes, and `previous` is the
column of the last decimal number.
-/
def fillFrom (arguments : List Argument) (next : Nat) (reordered : Bool)
    (previous : Option Column) (text : Text) : Text :=
  match text with
  | [] => surplus arguments next reordered
  | byte :: rest =>
      if byte = 0x25 then
        let placeholder :=
          Placeholder.read arguments next reordered previous rest
        let directive := placeholder.directive
        let verb := firstCharacter (rest.drop placeholder.taken)
        let further (next : Nat) (column : Option Column) : Text :=
          fillFrom arguments next placeholder.reordered column
            (rest.drop (placeholder.taken + verb.size))
        if verb.size = 0 then
          ascii "%!(NOVERB)" ++ further placeholder.next previous
        else if verb.code = 0x25 then
          0x25 :: further placeholder.next previous
        else if !placeholder.good then
          Argument.complaint verb.code (ascii "BADINDEX") ++
            further placeholder.next previous
        else
          match arguments[placeholder.next]? with
          | none =>
              Argument.complaint verb.code (ascii "MISSING") ++
                further placeholder.next previous
          | some argument =>
              placeholder.remark ++ argument.shown directive verb.code ++
                further (placeholder.next + 1)
                  (argument.columnAfter directive verb.code)
      else byte :: fillFrom arguments next reordered previous rest
termination_by text.length
decreasing_by
  all_goals
    simp only [List.length_cons, List.length_drop]
    omega

/-- A template with its placeholders filled in. -/
def fill (template : Text) (arguments : List Argument) : Text :=
  fillFrom arguments 0 false none template

end FlatAsm.Text
