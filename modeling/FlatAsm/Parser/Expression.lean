import FlatAsm.Parser.Cursor
import FlatAsm.SymInt

/-!
# Expressions

An expression is a chain of sums and differences, taken from left to right.
Its parts are integers and names, each with any number of minus signs before
it.  A name that has been given a value stands for that value, and any other
name is a label.
-/

namespace FlatAsm.Parse

/-- What a name stands for. -/
def nameValue (constants : Table Int64) (name : Text) : SymInt :=
  match constants.find? name with
  | some value => .constant value
  | none => .symbol name

/-- A value under its minus signs, an odd number of them if `negative`. -/
def signed (negative : Bool) (value : SymInt) : SymInt :=
  if negative then value.neg else value

/-- The value of a token that is an integer or a name. -/
def partValue? (constants : Table Int64) (token : Token) : Option SymInt :=
  match token.kind with
  | .integer value => some (.constant value)
  | .identifier => some (nameValue constants token.text)
  | _ => none

/-- Move past the current token, which has given a value. -/
def moveWith (value : SymInt) : Parse SymInt := do
  advance
  return value

theorem moveWith_neverGrows (value : SymInt) :
    NeverGrows (moveWith value) :=
  bind_neverGrows advance_neverGrows fun _ => pure_neverGrows _

theorem inside_of_isMark {token : Token} {mark : Mark}
    (found : token.isMark mark = true) : token.kind ≠ .endOfText := by
  intro ended
  simp [Token.isMark, ended] at found

/-- Parse minus signs and an integer or a name. -/
def signedPart (constants : Table Int64) (negative : Bool) :
    Parse SymInt := fun cursor =>
  match partValue? constants cursor.current with
  | some value => moveWith (signed negative value) cursor
  | none =>
      if _minus : cursor.current.isMark .minus then
        match _moved : advance cursor with
        | .error fault cursor' => .error fault cursor'
        | .ok _ cursor' => signedPart constants (!negative) cursor'
      else unexpected cursor
termination_by cursor => cursor.remaining
decreasing_by exact advance_remaining_lt _moved (inside_of_isMark _minus)

/-- How a further part joins the value before it. -/
def joinPart? (token : Token) : Option (SymInt → SymInt → SymInt) :=
  match token.kind with
  | .punctuation .plus => some SymInt.add
  | .punctuation .minus => some SymInt.sub
  | _ => none

theorem inside_of_joinPart? {token : Token}
    {join : SymInt → SymInt → SymInt}
    (found : joinPart? token = some join) :
    token.kind ≠ .endOfText := by
  intro ended
  simp [joinPart?, ended] at found

theorem signedPart_neverGrows (constants : Table Int64)
    (negative : Bool) : NeverGrows (signedPart constants negative) := by
  intro cursor cursor' result done
  fun_induction signedPart constants negative cursor with
  | case1 => exact moveWith_neverGrows _ done
  | case2 => cases done
  | case3 _ _ _ _ _ _ moved inductionHypothesis =>
      exact Nat.le_trans (inductionHypothesis done)
        (advance_neverGrows moved)
  | case4 => cases done

/-- Parse further parts and join them to a value. -/
def furtherParts (constants : Table Int64) (value : SymInt) :
    Parse SymInt := fun cursor =>
  match _sign : joinPart? cursor.current with
  | none => .ok value cursor
  | some join =>
      match _moved : advance cursor with
      | .error fault cursor' => .error fault cursor'
      | .ok _ cursor' =>
          match _part : signedPart constants false cursor' with
          | .error fault cursor'' => .error fault cursor''
          | .ok part cursor'' =>
              furtherParts constants (join value part) cursor''
termination_by cursor => cursor.remaining
decreasing_by
  exact Nat.lt_of_le_of_lt (signedPart_neverGrows _ _ _part)
    (advance_remaining_lt _moved (inside_of_joinPart? _sign))

theorem furtherParts_neverGrows (constants : Table Int64)
    (value : SymInt) : NeverGrows (furtherParts constants value) := by
  intro cursor cursor' result done
  fun_induction furtherParts constants value cursor with
  | case1 =>
      cases done
      exact Nat.le_refl _
  | case2 => cases done
  | case3 => cases done
  | case4 _ _ _ _ _ _ moved _ _ part inductionHypothesis =>
      exact Nat.le_trans (inductionHypothesis done)
        (Nat.le_trans (signedPart_neverGrows _ _ part)
          (advance_neverGrows moved))

/-- Parse an expression. -/
def expression (constants : Table Int64) : Parse SymInt := do
  let first ← signedPart constants false
  furtherParts constants first

theorem expression_neverGrows (constants : Table Int64) :
    NeverGrows (expression constants) :=
  bind_neverGrows (signedPart_neverGrows _ _) fun _ =>
    furtherParts_neverGrows _ _

end FlatAsm.Parse
