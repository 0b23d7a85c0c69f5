import FlatAsm.Proofs.LineComposition

/-!
# What a parser answers to a line

If the arguments of an instruction can be read, then whether they suit its
mnemonic is all that is left to decide.  So the answer to a request for a
statement is given by the mnemonic and the arguments on the next line, no
matter what surrounds this line and how the arguments are written.
-/

namespace FlatAsm

open Cursor (Passes)

/-! ## The next line -/

/--
The tokens stand on the next line of a parser.

Before them there may be line ends, and after them there is one, or the end
of the text.
-/
def Parser.Faces (parser : Parser) (line : List Token) : Prop :=
  ∃ blank last rest, parser.ahead = blank ++ (line ++ last :: rest) ∧
    (∀ token ∈ blank, token.kind = .newline) ∧ last.endsStatement = true

namespace Cursor

variable {cursor : Cursor} {token last : Token} {rest : List Token}

/-- The parser moves on to any token that is ahead. -/
theorem exists_advance_of_ahead (ahead : cursor.ahead = token :: rest)
    (more : rest ≠ []) :
    cursor.current = token ∧
      ∃ after, Parse.advance cursor = .ok () after ∧ after.ahead = rest := by
  obtain ⟨next, others, rfl⟩ := List.exists_cons_of_ne_nil more
  obtain ⟨here, upcoming⟩ := List.cons.inj ahead
  exact ⟨here, _, advance_of_upcoming upcoming, rfl⟩

theorem exists_passes_of_ahead {line : List Token}
    (ahead : cursor.ahead = line ++ last :: rest) :
    ∃ after, Passes cursor line after ∧ after.current = last := by
  induction line generalizing cursor with
  | nil => exact ⟨cursor, .here, (List.cons.inj ahead).1⟩
  | cons token line inductionHypothesis =>
      obtain ⟨rfl, middle, moved, left⟩ :=
        exists_advance_of_ahead ahead (by simp)
      obtain ⟨after, passed, ends⟩ := inductionHypothesis left
      exact ⟨after, .move moved passed, ends⟩

end Cursor

/-- Line ends ahead of a line are moved past. -/
theorem Parse.exists_skipNewlines {cursor : Cursor}
    {blank rest : List Token} {first : Token}
    (ahead : cursor.ahead = blank ++ first :: rest)
    (newlines : ∀ token ∈ blank, token.kind = .newline)
    (inside : first.kind ≠ .newline) :
    ∃ here, skipNewlines cursor = .ok () here ∧
      here.ahead = first :: rest := by
  induction blank generalizing cursor with
  | nil =>
      obtain ⟨rfl, -⟩ := List.cons.inj ahead
      refine ⟨cursor, ?_, ahead⟩
      rw [skipNewlines_eq, current_bind, if_neg inside]
      rfl
  | cons token blank inductionHypothesis =>
      obtain ⟨rfl, middle, moved, left⟩ :=
        Cursor.exists_advance_of_ahead ahead (by simp)
      obtain ⟨newline, newlines⟩ := List.forall_mem_cons.1 newlines
      obtain ⟨here, skipped, line⟩ := inductionHypothesis left newlines
      exact ⟨here, by rw [skipNewlines_of_newline newline moved, skipped],
        line⟩

namespace Parser

variable {parser : Parser}

/-- The first token is delivered if it was not before. -/
theorem exists_start (more : parser.ahead ≠ []) :
    ∃ first, start parser.started parser.cursor = .ok () first ∧
      first.ahead = parser.ahead := by
  cases started : parser.started with
  | true => exact ⟨parser.cursor, rfl, by simp [ahead, started]⟩
  | false =>
      simp only [ahead, started, Bool.false_eq_true, if_false] at more ⊢
      obtain ⟨token, rest, upcoming⟩ := List.exists_cons_of_ne_nil more
      exact ⟨_, Cursor.advance_of_upcoming upcoming, upcoming.symm⟩

/-- A request for a statement leads to the next line. -/
theorem Faces.exists_line {first : Token} {line : List Token}
    (faces : parser.Faces (first :: line)) (inside : first.kind ≠ .newline) :
    ∃ here after, Passes here (first :: line) after ∧
      after.current.endsStatement = true ∧
      (start parser.started >>= fun _ =>
        Parse.statement parser.width parser.constants) parser.cursor =
          Parse.statementHere parser.width parser.constants here := by
  obtain ⟨blank, last, rest, ahead, newlines, ends⟩ := faces
  obtain ⟨opening, started, sameAhead⟩ :=
    @exists_start parser (by simp [ahead])
  rw [ahead] at sameAhead
  obtain ⟨here, skipped, left⟩ :=
    Parse.exists_skipNewlines sameAhead newlines inside
  obtain ⟨after, passed, rfl⟩ :=
    @Cursor.exists_passes_of_ahead here last rest (first :: line) left
  refine ⟨here, after, passed, ends, ?_⟩
  rw [Parse.bind_of_ok started, Parse.statement, Parse.bind_of_ok skipped]

theorem next_of_failure {fault : Error} {after : Cursor}
    (failed : (start parser.started >>= fun _ =>
      Parse.statement parser.width parser.constants) parser.cursor =
        .error fault after) :
    parser.next = (.error fault, ⟨parser.width, parser.constants, after,
      true⟩) := by
  unfold next
  dsimp only
  rw [failed]

end Parser

/-! ## Lines that are instructions -/

/-- The answer to a line on which an instruction stands. -/
def Operation.answer (line : Int) (mnemonic : Mnemonic) :
    Except Cause Operation → Except Error (Option Item)
  | .ok operation => .ok (some (.instruction ⟨line, operation⟩))
  | .error cause => .error (.operand line mnemonic.name cause)

open Grammar

namespace Parse

variable {width : Width} {constants : Table Int64} {cursor after : Cursor}
  {keyword : Token} {mnemonic : Mnemonic} {arguments : List Argument}

theorem instruction_of_arguments {tokens : List Token}
    (once : mnemonic.category ≠ .times)
    (listed : AreOptionalArguments constants tokens arguments)
    (passed : Passes cursor (keyword :: tokens) after)
    (ends : after.current.endsStatement = true) :
    instruction width constants mnemonic cursor =
      liftOperation keyword.line mnemonic
        (Operation.ofArguments width mnemonic (.constant 0) arguments)
        after := by
  obtain ⟨rfl, middle, moved, later⟩ := Passes.cons_iff.1 passed
  rw [instruction, current_bind, bind_of_ok moved, timesCount_of_once once,
    pure_bind, bind_of_ok (arguments_complete listed later ends)]

theorem instruction_of_repetition {front back : List Token} {comma : Token}
    {count : SymInt} (category : mnemonic.category = .times)
    (counted : IsExpression constants front count)
    (divides : comma.kind = .punctuation .comma)
    (listed : AreOptionalArguments constants back arguments)
    (passed : Passes cursor (keyword :: (front ++ comma :: back)) after)
    (ends : after.current.endsStatement = true) :
    instruction width constants mnemonic cursor =
      liftOperation keyword.line mnemonic
        (Operation.ofArguments width mnemonic count arguments) after := by
  obtain ⟨rfl, middle, moved, passed⟩ := Passes.cons_iff.1 passed
  obtain ⟨second, earlier, passed⟩ := Passes.append_iff.1 passed
  obtain ⟨rfl, third, divided, later⟩ := Passes.cons_iff.1 passed
  have found := expression_complete counted earlier
    (joinPart?_of_kind divides (by decide) (by decide))
  rw [instruction, current_bind, bind_of_ok moved,
    timesCount_of_times category, bind_assoc, bind_of_ok found, bind_assoc,
    bind_of_ok (expect_ok_iff.2 ⟨divides, divided⟩), pure_bind,
    bind_of_ok (arguments_complete listed later ends)]

end Parse

namespace Parser

variable {parser : Parser} {keyword : Token} {mnemonic : Mnemonic}
  {arguments : List Argument}

/-- An instruction that has been read is answered as its operands say. -/
theorem next_of_instruction {tokens : List Token}
    {made : Except Cause Operation}
    (faces : parser.Faces (keyword :: tokens))
    (kind : keyword.kind = .mnemonic mnemonic)
    (read : ∀ {here after}, Passes here (keyword :: tokens) after →
      after.current.endsStatement = true →
        Parse.instruction parser.width parser.constants mnemonic here =
          Parse.liftOperation keyword.line mnemonic made after) :
    parser.next.1 = Operation.answer keyword.line mnemonic made := by
  obtain ⟨here, after, passed, ends, requested⟩ :=
    faces.exists_line (by simp [kind])
  obtain ⟨rfl, -⟩ := Passes.cons_iff.1 passed
  rw [Parse.statementHere, kind] at requested
  dsimp only at requested
  have lifted := read passed ends
  cases made with
  | error cause =>
      rw [Parse.bind_of_error lifted] at requested
      rw [next_of_failure requested]
      rfl
  | ok operation =>
      rw [Parse.bind_of_ok lifted,
        Parse.complete_ok_iff.2 ⟨rfl, ends, rfl⟩] at requested
      rw [next_of_statement requested]
      rfl

/-- Arguments on the next line are accepted if they suit the mnemonic. -/
theorem Faces.next_arguments {tokens : List Token}
    (faces : parser.Faces (keyword :: tokens))
    (kind : keyword.kind = .mnemonic mnemonic)
    (once : mnemonic.category ≠ .times)
    (listed : AreOptionalArguments parser.constants tokens arguments) :
    parser.next.1 = Operation.answer keyword.line mnemonic
      (Operation.ofArguments parser.width mnemonic (.constant 0)
        arguments) :=
  next_of_instruction faces kind fun passed ends =>
    Parse.instruction_of_arguments once listed passed ends

/-- The next line of a parser is a mnemonic with these arguments. -/
structure FacesInstruction (parser : Parser) (line : Int)
    (mnemonic : Mnemonic) (arguments : List Argument) : Prop where
  written : ∃ keyword tokens, parser.Faces (keyword :: tokens) ∧
    keyword.kind = .mnemonic mnemonic ∧ keyword.line = line ∧
    AreOptionalArguments parser.constants tokens arguments

theorem FacesInstruction.next {line : Int}
    (faces : parser.FacesInstruction line mnemonic arguments)
    (once : mnemonic.category ≠ .times) :
    parser.next.1 = Operation.answer line mnemonic
      (Operation.ofArguments parser.width mnemonic (.constant 0)
        arguments) := by
  obtain ⟨keyword, tokens, faces, kind, rfl, listed⟩ := faces
  exact faces.next_arguments kind once listed

theorem Faces.next_repetition {front back : List Token} {comma : Token}
    {count : SymInt}
    (faces : parser.Faces (keyword :: (front ++ comma :: back)))
    (kind : keyword.kind = .mnemonic mnemonic)
    (category : mnemonic.category = .times)
    (counted : IsExpression parser.constants front count)
    (divides : comma.kind = .punctuation .comma)
    (listed : AreOptionalArguments parser.constants back arguments) :
    parser.next.1 = Operation.answer keyword.line mnemonic
      (Operation.ofArguments parser.width mnemonic count arguments) :=
  next_of_instruction faces kind fun passed ends =>
    Parse.instruction_of_repetition category counted divides listed passed
      ends

end Parser

end FlatAsm
