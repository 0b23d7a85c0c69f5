import FlatAsm.Table
import FlatAsm.Text.Decimal

/-!
# Symbolic integers

The value of an expression may depend on where labels end up.  It is kept as
a base plus a multiple of the address of each label.  All arithmetic is that
of 64-bit words and wraps around.
-/

namespace FlatAsm

/-- A base plus the sum of coefficient times address over some labels. -/
structure SymInt where
  base : Int64
  /-- How often each label's address counts; an entry may be zero. -/
  coefficients : Table Int64
  deriving DecidableEq, Repr

namespace SymInt

/-- A value that depends on no label. -/
def constant (value : Int64) : SymInt :=
  ⟨value, ∅⟩

/-- The address of a label. -/
def symbol (label : Text) : SymInt :=
  ⟨0, Table.empty.insert label 1⟩

/-- The labels the value depends on, in order, with their coefficients. -/
def terms (value : SymInt) : List (Text × Int64) :=
  value.coefficients.entries.filter fun entry => entry.2 != 0

/-- Does the value depend on no label? -/
def isConstant (value : SymInt) : Bool :=
  value.coefficients.entries.all fun entry => entry.2 == 0

/-- Add multiples of labels to a table of coefficients. -/
def addTerms (sign : Int64) (coefficients : Table Int64)
    (entries : List (Text × Int64)) : Table Int64 :=
  entries.foldl
    (fun table entry =>
      table.insert entry.1
        ((table.find? entry.1).getD 0 + sign * entry.2))
    coefficients

/-- The left value plus `sign` times the right one, without zero entries. -/
def combine (left : SymInt) (sign : Int64) (right : SymInt) : SymInt where
  base := left.base + sign * right.base
  coefficients :=
    (addTerms sign left.coefficients right.coefficients.entries).filter
      (· != 0)

/-- The sum of two values. -/
def add (left right : SymInt) : SymInt :=
  left.combine 1 right

/-- The difference of two values. -/
def sub (left right : SymInt) : SymInt :=
  left.combine (-1) right

/-- The value with the opposite sign. -/
def neg (value : SymInt) : SymInt :=
  (constant 0).sub value

/--
Add up terms under given label addresses.

The sum stops short at a label without an address.  The flag says whether
every label had one.
-/
def resolveTerms (addresses : Table Int) (sum : Int64) :
    List (Text × Int64) → Int64 × Bool
  | [] => (sum, true)
  | (label, coefficient) :: rest =>
      match addresses.find? label with
      | none => (sum, false)
      | some address =>
          resolveTerms addresses
            (sum + coefficient * Int64.ofInt address) rest

/-- The value under given label addresses, and whether they suffice. -/
def resolve (value : SymInt) (addresses : Table Int) : Int64 × Bool :=
  resolveTerms addresses value.base value.terms

/-- The multiple of a label, with the sign that joins it to earlier text. -/
def multipleText (isFirst : Bool) (coefficient : Int64) : Text :=
  if coefficient = 1 then
    if isFirst then [] else [0x2b]
  else if coefficient = -1 then [0x2d]
  else if 0 < coefficient ∧ isFirst = false then
    0x2b :: Text.ofInt coefficient.toInt ++ [0x2a]
  else Text.ofInt coefficient.toInt ++ [0x2a]

/-- The terms of a sum; the first is the one before which nothing stands. -/
def termsText (isFirst : Bool) : List (Text × Int64) → Text
  | [] => []
  | (label, coefficient) :: rest =>
      let term := multipleText isFirst coefficient ++ label
      term ++ termsText (isFirst && term.isEmpty) rest

/-- The value as a sum: its terms in order, then its base unless it is 0. -/
def text (value : SymInt) : Text :=
  let written := termsText true value.terms
  if written = [] then Text.ofInt value.base.toInt
  else if 0 < value.base then
    written ++ 0x2b :: Text.ofInt value.base.toInt
  else if value.base < 0 then written ++ Text.ofInt value.base.toInt
  else written

end SymInt

end FlatAsm
