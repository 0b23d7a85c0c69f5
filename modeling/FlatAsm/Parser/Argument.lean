import FlatAsm.Instruction
import FlatAsm.Parser.Expression

/-!
# Arguments

What may stand after a mnemonic, separated by commas: strings, registers,
addresses in brackets and expressions.
-/

namespace FlatAsm

/-- An argument of a mnemonic, before it is known to suit it. -/
inductive Argument where
  | string (bytes : Text)
  | operand (operand : Operand)
  deriving DecidableEq, Repr

namespace Parse

/-- Parse an address after its opening bracket. -/
def addressInside (constants : Table Int64) : Parse Operand := do
  match (← current).kind with
  | .register pointer =>
      advance
      if (← current).isMark .closeBracket then
        advance
        return .indirect pointer
      else
        expect .colon
        let value ← expression constants
        expect .closeBracket
        return .indirectDisplacement pointer value
  | _ =>
      let value ← expression constants
      expect .colon
      match (← current).kind with
      | .register pointer =>
          advance
          expect .closeBracket
          return .indirectDisplacement pointer value
      | _ => unexpected

/-- Parse an address from its opening bracket on. -/
def address (constants : Table Int64) : Parse Operand := do
  advance
  addressInside constants

/-- Parse one argument. -/
def argument (constants : Table Int64) : Parse Argument := do
  let token ← current
  match token.kind with
  | .string =>
      advance
      return .string token.text
  | .register register =>
      advance
      return .operand (.register register)
  | .punctuation .openBracket =>
      let operand ← address constants
      return .operand operand
  | _ =>
      let value ← expression constants
      return .operand (.displacement value)

theorem addressInside_neverGrows (constants : Table Int64) :
    NeverGrows (addressInside constants) := by
  refine bind_neverGrows current_neverGrows fun token => ?_
  split
  · refine bind_neverGrows advance_neverGrows fun _ => ?_
    refine bind_neverGrows current_neverGrows fun _ => ?_
    refine ite_neverGrows ?_ ?_
    · exact bind_neverGrows advance_neverGrows fun _ => pure_neverGrows _
    · refine bind_neverGrows (expect_neverGrows _) fun _ => ?_
      refine bind_neverGrows (expression_neverGrows _) fun _ => ?_
      exact bind_neverGrows (expect_neverGrows _) fun _ =>
        pure_neverGrows _
  · refine bind_neverGrows (expression_neverGrows _) fun _ => ?_
    refine bind_neverGrows (expect_neverGrows _) fun _ => ?_
    refine bind_neverGrows current_neverGrows fun _ => ?_
    split
    · refine bind_neverGrows advance_neverGrows fun _ => ?_
      exact bind_neverGrows (expect_neverGrows _) fun _ =>
        pure_neverGrows _
    · exact unexpected_neverGrows

theorem argument_neverGrows (constants : Table Int64) :
    NeverGrows (argument constants) := by
  refine bind_neverGrows current_neverGrows fun token => ?_
  split
  · exact bind_neverGrows advance_neverGrows fun _ => pure_neverGrows _
  · exact bind_neverGrows advance_neverGrows fun _ => pure_neverGrows _
  · refine bind_neverGrows ?_ fun _ => pure_neverGrows _
    exact bind_neverGrows advance_neverGrows fun _ =>
      addressInside_neverGrows _
  · exact bind_neverGrows (expression_neverGrows _) fun _ =>
      pure_neverGrows _

/-- Parse arguments onto those before them, which are held in reverse. -/
def argumentsOnto (constants : Table Int64) (reversed : List Argument) :
    Parse (List Argument) := fun cursor =>
  match _first : argument constants cursor with
  | .error fault cursor' => .error fault cursor'
  | .ok parsed cursor' =>
      if _comma : cursor'.current.isMark .comma then
        match _moved : advance cursor' with
        | .error fault cursor'' => .error fault cursor''
        | .ok _ cursor'' =>
            argumentsOnto constants (parsed :: reversed) cursor''
      else .ok (parsed :: reversed).reverse cursor'
termination_by cursor => cursor.remaining
decreasing_by
  exact Nat.lt_of_lt_of_le
    (advance_remaining_lt _moved (inside_of_isMark _comma))
    (argument_neverGrows _ _first)

/-- Parse the arguments up to the end of the statement, if any. -/
def arguments (constants : Table Int64) : Parse (List Argument) := do
  if (← current).endsStatement then return []
  else argumentsOnto constants []

theorem argumentsOnto_neverGrows (constants : Table Int64)
    (reversed : List Argument) :
    NeverGrows (argumentsOnto constants reversed) := by
  intro cursor cursor' result done
  fun_induction argumentsOnto constants reversed cursor with
  | case1 => cases done
  | case2 => cases done
  | case3 _ _ _ _ first _ _ _ moved inductionHypothesis =>
      exact Nat.le_trans (inductionHypothesis done)
        (Nat.le_trans (advance_neverGrows moved)
          (argument_neverGrows _ first))
  | case4 _ _ _ _ first =>
      cases done
      exact argument_neverGrows _ first

theorem arguments_neverGrows (constants : Table Int64) :
    NeverGrows (arguments constants) :=
  bind_neverGrows current_neverGrows fun _ =>
    ite_neverGrows (pure_neverGrows _) (argumentsOnto_neverGrows _ _)

end Parse

end FlatAsm
