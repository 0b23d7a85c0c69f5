import FlatAsm.Parser.Operation

/-!
# Statements

A statement is a label declaration or an instruction, and ends where its
line does.  A `Parser` hands them out one after the other and can go on
after an error; `parse` collects them up to the first error.
-/

namespace FlatAsm

namespace Parse

/-- Parse a label declaration, from its dot on. -/
def label : Parse Item := do
  let dot ← current
  advance
  let name ← current
  match name.kind with
  | .identifier =>
      advance
      return .label dot.line name.text
  | _ => throw (.malformed dot.line name.shown .labelInvalid)

/-- Parse the count that a mnemonic asks for before its arguments. -/
def timesCount (constants : Table Int64) (mnemonic : Mnemonic) :
    Parse SymInt := do
  match mnemonic.category with
  | .times =>
      let count ← expression constants
      expect .comma
      return count
  | _ => return .constant 0

/-- Fail with an operand error, or go on with the operation. -/
def liftOperation (line : Int) (mnemonic : Mnemonic) :
    Except Cause Operation → Parse Item
  | .ok operation => return .instruction ⟨line, operation⟩
  | .error cause => throw (.operand line mnemonic.name cause)

/-- Parse an instruction, from its mnemonic on. -/
def instruction (width : Width) (constants : Table Int64)
    (mnemonic : Mnemonic) : Parse Item := do
  let keyword ← current
  advance
  let count ← timesCount constants mnemonic
  let parsed ← arguments constants
  liftOperation keyword.line mnemonic
    (Operation.ofArguments width mnemonic count parsed)

/-- Move past line ends. -/
def skipNewlines : Parse Unit := fun cursor =>
  if _newline : cursor.current.kind = .newline then
    match _moved : advance cursor with
    | .error fault cursor' => .error fault cursor'
    | .ok _ cursor' => skipNewlines cursor'
  else .ok () cursor
termination_by cursor => cursor.remaining
decreasing_by exact advance_remaining_lt _moved (by simp [_newline])

/-- Let a statement end where its line does. -/
def complete (item : Item) : Parse (Option Item) := do
  if (← current).endsStatement then return some item else unexpected

/-- Parse the statement that starts at the current token. -/
def statementHere (width : Width) (constants : Table Int64) :
    Parse (Option Item) := fun cursor =>
  match cursor.current.kind with
  | .endOfText => .ok none cursor
  | .punctuation .dot => (label >>= complete) cursor
  | .mnemonic mnemonic =>
      (instruction width constants mnemonic >>= complete) cursor
  | _ => unexpected cursor

/-- Parse the next statement; there is none at the end of the text. -/
def statement (width : Width) (constants : Table Int64) :
    Parse (Option Item) := do
  skipNewlines
  statementHere width constants

theorem throw_neverGrows {α : Type} (fault : Error) :
    NeverGrows (throw fault : Parse α) := by
  intro cursor cursor' result done
  cases done

theorem skipNewlines_neverGrows : NeverGrows skipNewlines := by
  intro cursor cursor' result done
  fun_induction skipNewlines cursor with
  | case1 => cases done
  | case2 _ _ _ _ moved inductionHypothesis =>
      exact Nat.le_trans (inductionHypothesis done)
        (advance_neverGrows moved)
  | case3 =>
      cases done
      exact Nat.le_refl _

theorem complete_neverGrows (item : Item) :
    NeverGrows (complete item) :=
  bind_neverGrows current_neverGrows fun _ =>
    ite_neverGrows (pure_neverGrows _) unexpected_neverGrows

theorem timesCount_neverGrows (constants : Table Int64)
    (mnemonic : Mnemonic) :
    NeverGrows (timesCount constants mnemonic) := by
  unfold timesCount
  split
  · refine bind_neverGrows (expression_neverGrows _) fun _ => ?_
    exact bind_neverGrows (expect_neverGrows _) fun _ => pure_neverGrows _
  · exact pure_neverGrows _

theorem liftOperation_neverGrows (line : Int) (mnemonic : Mnemonic)
    (outcome : Except Cause Operation) :
    NeverGrows (liftOperation line mnemonic outcome) := by
  cases outcome with
  | ok => exact pure_neverGrows _
  | error => exact throw_neverGrows _

/-- A step that starts by moving past a token leaves fewer tokens. -/
theorem advance_bind_remaining_lt {α : Type} {next : Unit → Parse α}
    (nextStep : ∀ value, NeverGrows (next value))
    {cursor cursor' : Cursor} {result : α}
    (inside : cursor.current.kind ≠ .endOfText)
    (done : (advance >>= next) cursor = .ok result cursor') :
    cursor'.remaining < cursor.remaining := by
  simp only [bind, EStateM.bind] at done
  split at done
  · next value middle moved =>
    exact Nat.lt_of_le_of_lt (nextStep value done)
      (advance_remaining_lt moved inside)
  · cases done

theorem label_remaining_lt {cursor cursor' : Cursor} {item : Item}
    (inside : cursor.current.kind ≠ .endOfText)
    (done : label cursor = .ok item cursor') :
    cursor'.remaining < cursor.remaining := by
  refine advance_bind_remaining_lt (fun _ => ?_) inside done
  refine bind_neverGrows current_neverGrows fun _ => ?_
  split
  · exact bind_neverGrows advance_neverGrows fun _ => pure_neverGrows _
  · exact throw_neverGrows _

theorem instruction_remaining_lt {width : Width}
    {constants : Table Int64} {mnemonic : Mnemonic}
    {cursor cursor' : Cursor} {item : Item}
    (inside : cursor.current.kind ≠ .endOfText)
    (done : instruction width constants mnemonic cursor =
      .ok item cursor') :
    cursor'.remaining < cursor.remaining := by
  refine advance_bind_remaining_lt (fun _ => ?_) inside done
  refine bind_neverGrows (timesCount_neverGrows _ _) fun _ => ?_
  refine bind_neverGrows (arguments_neverGrows _) fun _ => ?_
  exact liftOperation_neverGrows _ _ _

theorem complete_bind_remaining_lt {first : Parse Item}
    {cursor cursor' : Cursor} {result : Option Item}
    (firstStep : ∀ {item : Item} {middle : Cursor},
      first cursor = .ok item middle →
        middle.remaining < cursor.remaining)
    (done : (first >>= complete) cursor = .ok result cursor') :
    cursor'.remaining < cursor.remaining := by
  simp only [bind, EStateM.bind] at done
  split at done
  · next item middle found =>
    exact Nat.lt_of_le_of_lt (complete_neverGrows item done)
      (firstStep found)
  · cases done

theorem statementHere_remaining_lt {width : Width}
    {constants : Table Int64} {cursor cursor' : Cursor} {item : Item}
    (done : statementHere width constants cursor =
      .ok (some item) cursor') :
    cursor'.remaining < cursor.remaining := by
  unfold statementHere at done
  split at done
  · cases done
  · next kind =>
    exact complete_bind_remaining_lt
      (label_remaining_lt (by simp [kind])) done
  · next kind =>
    exact complete_bind_remaining_lt
      (instruction_remaining_lt (by simp [kind])) done
  · cases done

/-- A statement takes at least one token. -/
theorem statement_remaining_lt {width : Width}
    {constants : Table Int64} {cursor cursor' : Cursor} {item : Item}
    (done : statement width constants cursor = .ok (some item) cursor') :
    cursor'.remaining < cursor.remaining := by
  simp only [statement, bind, EStateM.bind] at done
  split at done
  · next skipped =>
    exact Nat.lt_of_lt_of_le (statementHere_remaining_lt done)
      (skipNewlines_neverGrows skipped)
  · cases done

end Parse

/-- Hands out the statements of a token stream one after the other. -/
structure Parser where
  /-- The width of instructions that name no register. -/
  width : Width
  /-- The names that stand for values. -/
  constants : Table Int64
  cursor : Cursor
  /-- Has the first token been delivered? -/
  started : Bool

namespace Parser

/-- Before the first statement of a stream. -/
def ofStream (width : Width) (constants : Table Int64)
    (stream : TokenStream) : Parser where
  width := width
  constants := constants
  cursor := .ofStream stream
  started := false

/-- Deliver the first token, once. -/
def start (started : Bool) : Parse Unit :=
  if started then return () else Parse.advance

/--
The next statement, or none at the end of the text, and where it leaves the
parser.

After an error the parser goes on from the token it has reached.
-/
def next (parser : Parser) : Except Error (Option Item) × Parser :=
  let step : Parse (Option Item) := do
    start parser.started
    Parse.statement parser.width parser.constants
  match step parser.cursor with
  | .ok item cursor =>
      (.ok item, { parser with cursor := cursor, started := true })
  | .error fault cursor =>
      (.error fault, { parser with cursor := cursor, started := true })

/-- Give up the rest of the token stream. -/
def close (parser : Parser) : Parser :=
  { parser with cursor := parser.cursor.close }

end Parser

/-- The statements of a text, up to its end or to the first error. -/
structure Parsed where
  items : List Item
  fault : Option Error
  deriving DecidableEq, Repr

namespace Parsed

/-- Parse statements onto those before them, which are held in reverse. -/
def collectOnto (width : Width) (constants : Table Int64)
    (reversed : List Item) (cursor : Cursor) : Parsed :=
  match _next : Parse.statement width constants cursor with
  | .error fault _ => ⟨reversed.reverse, some fault⟩
  | .ok none _ => ⟨reversed.reverse, none⟩
  | .ok (some item) cursor' =>
      collectOnto width constants (item :: reversed) cursor'
termination_by cursor.remaining
decreasing_by exact Parse.statement_remaining_lt _next

end Parsed

/-- Parse the statements of a token stream up to the first error. -/
def parse (width : Width) (constants : Table Int64)
    (stream : TokenStream) : Parsed :=
  match Parse.advance (.ofStream stream) with
  | .error fault _ => ⟨[], some fault⟩
  | .ok _ cursor => Parsed.collectOnto width constants [] cursor

end FlatAsm
