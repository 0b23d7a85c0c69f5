import FlatAsm.Assembler

/-!
# Sessions

A session is an assembler that is used over and over.  Its settings can be
changed, and it can assemble one source after the other.

While a source is assembled the session holds the image and the statements
made so far and changes them in place.  They are given up at the end, whether
there is a program or an error.
-/

namespace FlatAsm

/-- An assembler and the work that it has in hand. -/
structure Session where
  settings : Assembler
  /-- The image under construction, while there is one. -/
  image : Option Image
  /-- The statements that the image is made of. -/
  statements : Array Statement
  deriving DecidableEq, Repr

/-- A piece of work.  Where it fails, what has been done so far remains. -/
abbrev Work (α : Type) := EStateM Error Session α

theorem Parser.next_remaining_lt {parser after : Parser} {item : Item}
    (given : parser.next = (.ok (some item), after)) :
    after.cursor.remaining < parser.cursor.remaining := by
  simp only [next, bind, EStateM.bind] at given
  split at given
  · next found =>
    cases given
    split at found
    · next started =>
      refine Nat.lt_of_lt_of_le (Parse.statement_remaining_lt found) ?_
      revert started
      unfold start
      split
      · exact fun started => Parse.pure_neverGrows _ started
      · exact fun started => Parse.advance_neverGrows started
    · cases found
  · cases given

namespace Session

/-- A session that has done nothing yet. -/
def initial : Session :=
  ⟨.initial, none, #[]⟩

/-- The work in hand. -/
def layout (session : Session) : Layout :=
  ⟨session.image.getD .empty, session.statements⟩

/-- Take up work, in place of what was in hand. -/
def hold (session : Session) (layout : Layout) : Session :=
  { session with
    image := some layout.image
    statements := layout.statements }

/-- Give up the work in hand. -/
def release (session : Session) : Session :=
  { session with image := none, statements := #[] }

/-- Declare a label where the next code goes. -/
def declare (line : Int) (name : Text) : Work Unit := fun session =>
  match session.layout.declare session.settings.constants line name with
  | .error fault => .error fault session
  | .ok layout => .ok () (session.hold layout)

/-- Append the code of an instruction. -/
def append (content : Instruction) : Work Unit :=
  -- the session is taken apart so that its arrays can grow in place
  fun ⟨settings, image, statements⟩ =>
    match content.encode with
    | .error fault => .error fault ⟨settings, image, statements⟩
    | .ok code =>
        let image := image.getD .empty
        let statement : Statement :=
          ⟨content.line, image.offset, content, code⟩
        match image.emit code content.line with
        | .error reason =>
            .error (.breakdown reason) ⟨settings, none, statements⟩
        | .ok image =>
            .ok () ⟨settings, some image, statements.push statement⟩

/-- Lay out one more item. -/
def place : Item → Work Unit
  | .label line name => declare line name
  | .instruction content => append content

/-- Lay out what a parser hands out, up to the end or the first error. -/
def placeAll (parser : Parser) : Work Unit := fun session =>
  match _given : parser.next with
  | (.error fault, _) => .error fault session
  | (.ok none, _) => .ok () session
  | (.ok (some item), after) =>
      match place item session with
      | .error fault session' => .error fault session'
      | .ok _ session' => placeAll after session'
termination_by parser.cursor.remaining
decreasing_by exact Parser.next_remaining_lt _given

/-- Fill in what depends on labels. -/
def relocate : Work Unit := fun session =>
  match session.layout.image.applyRelocations with
  | .error reason => .error (.breakdown reason) session
  | .ok (image, some fault) =>
      .error fault { session with image := some image }
  | .ok (image, none) => .ok () { session with image := some image }

/-- Make a program of a text, with the settings of the session. -/
def build (language : FormulaLanguage) (text : Text) : Work Program := do
  modify (·.hold .empty)
  let settings := (← get).settings
  let width := settings.defaultWidth
  placeAll (.ofStream width settings.constants
    (tokenize (some (language width settings.constants)) text))
  relocate
  let layout := (← get).layout
  return ⟨layout.image.data, layout.image.symbols,
    layout.statements.toList⟩

/--
Assemble a source, given a language of formulas.

The source is its text, or the reason why it could not be read.
-/
def assembleWith (language : FormulaLanguage)
    (source : Except Text Text) : Work Program := fun session =>
  let width := session.settings.defaultWidth
  if !width.isSupported then .error (.width width.bits) session
  else
    match source with
    | .error reason => .error (.unreadable reason) session
    | .ok text =>
        match build language text session with
        | .error fault after => .error fault after.release
        | .ok program after => .ok program after.release

/-- What can be asked of a session. -/
inductive Step where
  | setWidth (width : Width)
  | predefine (name : Text) (value : Int64)
  | assemble (source : Except Text Text)

/-- What comes of a step: if all goes well, a program for a source. -/
abbrev Answer := Except Error (Option Program)

/-- Take one step. -/
def step (language : FormulaLanguage) (session : Session) :
    Step → Answer × Session
  | .setWidth width =>
      (.ok none,
        { session with settings := session.settings.setWidth width })
  | .predefine name value =>
      match session.settings.predefine name value with
      | .error fault => (.error fault, session)
      | .ok settings => (.ok none, { session with settings := settings })
  | .assemble source =>
      match assembleWith language source session with
      | .error fault after => (.error fault, after)
      | .ok program after => (.ok (some program), after)

/-- Take one step after the other. -/
def run (language : FormulaLanguage) (session : Session) :
    List Step → List Answer × Session
  | [] => ([], session)
  | first :: rest =>
      let (answer, next) := session.step language first
      let (answers, last) := next.run language rest
      (answer :: answers, last)

end Session

end FlatAsm
