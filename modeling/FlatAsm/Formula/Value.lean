import FlatAsm.Formula.Expression

/-!
# Values of formulas

Formulas compute with integers of any size, floating point numbers, truth
values, strings, bytes, tuples and lists.  Truth values are no numbers.
-/

namespace FlatAsm.Formula

/-- What an expression can come out as. -/
inductive Value where
  | nothing
  | bool (value : Bool)
  | integer (value : Int)
  | float (value : Float)
  | string (text : Text)
  | bytes (values : Text)
  | tuple (elements : List Value)
  /--
  A list, told apart from all others by its number.

  It has the elements it was made with until it is changed.
  -/
  | list (number : Nat) (initial : List Value)
  /-- One of the functions that every formula knows. -/
  | function (name : Text)
  deriving Repr

/-- Computing either succeeds or has no result. -/
abbrev Computing (α : Type) := Except FormulaStage α

/-- The computation has no result. -/
def failed {α : Type} : Computing α :=
  .error .computation

namespace Value

/-- A number of at most 32 bits, as counts and positions are. -/
def small : Value → Computing Int
  | .integer value =>
      if -0x80000000 ≤ value ∧ value < 0x80000000 then .ok value else failed
  | _ => failed

end Value

end FlatAsm.Formula
