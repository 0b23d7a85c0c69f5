import FlatAsm.Formula.Interpolation
import FlatAsm.Repetition

/-!
# Operations of formulas

The operators of formulas on values.  An operation that does not suit its
operands has no result.
-/

namespace FlatAsm.Formula

namespace Number

/-- The floating point number nearest to an integer, if it is finite. -/
def ofInteger (value : Int) : Computing Float :=
  let nearest := FloatingPoint.ofInteger value
  if nearest.isFinite then .ok nearest else failed

/-- Two operands, at least one of them floating point, as such numbers. -/
def both (left right : Value) : Computing (Float × Float) :=
  match left, right with
  | .float x, .float y => .ok (x, y)
  | .float x, .integer y => do return (x, ← ofInteger y)
  | .integer x, .float y => do return (← ofInteger x, y)
  | _, _ => failed

/-- The operands of a quotient, which may both be integers. -/
def quotientOperands (left right : Value) : Computing (Float × Float) :=
  match left, right with
  | .integer x, .integer y => do
      return (← ofInteger x, ← ofInteger y)
  | _, _ => both left right

end Number

namespace Comparison

/-- Does the comparison hold of two values in this order? -/
def holds (comparison : Comparison) (order : Ordering) : Bool :=
  match comparison with
  | .equal => order = .eq
  | .different => order ≠ .eq
  | .less => order = .lt
  | .greater => order = .gt
  | .lessOrEqual => order ≠ .gt
  | .greaterOrEqual => order ≠ .lt

/-- Values without an order are at most equal or different. -/
def unordered (comparison : Comparison) (same : Bool) : Computing Bool :=
  match comparison with
  | .equal => .ok same
  | .different => .ok !same
  | _ => failed

end Comparison

namespace Value

/-- Compare two sequences, given how to compare their elements. -/
def compareElements
    (compare : Comparison → Value → Value → Computing Bool)
    (comparison : Comparison) :
    List Value → List Value → Computing Bool
  | left :: lefts, right :: rights => do
      if ← compare .equal left right then
        compareElements compare comparison lefts rights
      else
        match comparison with
        | .equal => return false
        | .different => return true
        | _ => compare comparison left right
  | [], [] => .ok (comparison.holds .eq)
  | [], _ :: _ => .ok (comparison.holds .lt)
  | _ :: _, [] => .ok (comparison.holds .gt)

/-- Compare two sequences; those of different lengths are never equal. -/
def compareSequences
    (compare : Comparison → Value → Value → Computing Bool)
    (comparison : Comparison) (left right : List Value) :
    Computing Bool :=
  if left.length ≠ right.length ∧ comparison = .equal then .ok false
  else if left.length ≠ right.length ∧ comparison = .different then .ok true
  else compareElements compare comparison left right

/-- Compare two values whose elements are nested less deep than `depth`. -/
def compareWithin (lists : Lists) :
    Nat → Comparison → Value → Value → Computing Bool
  | 0, _, _, _ => failed
  | depth + 1, comparison, left, right =>
      match left, right with
      | .integer x, .integer y => .ok (comparison.holds (compare x y))
      | .string x, .string y => .ok (comparison.holds (Text.order x y))
      | .bytes x, .bytes y => .ok (comparison.holds (Text.order x y))
      | .bool x, .bool y => .ok (comparison.holds (compare x y))
      | .float x, .float y =>
          .ok (comparison.holds (FloatingPoint.order x y))
      | .float x, .integer y =>
          .ok (comparison.holds (FloatingPoint.orderOfInteger y x).swap)
      | .integer x, .float y =>
          .ok (comparison.holds (FloatingPoint.orderOfInteger x y))
      | .tuple x, .tuple y =>
          compareSequences (compareWithin lists depth) comparison x y
      | .list number x, .list other y =>
          compareSequences (compareWithin lists depth) comparison
            (lists.elements number x) (lists.elements other y)
      | .nothing, .nothing => comparison.unordered true
      | .function x, .function y => comparison.unordered (x = y)
      | _, _ => comparison.unordered false

/-- How deep the elements of compared values may be nested. -/
def comparisonDepth : Nat := 10

/-- Compare two values. -/
def compared (lists : Lists) (comparison : Comparison)
    (left right : Value) : Computing Bool :=
  compareWithin lists comparisonDepth comparison left right

/-- Is the value among the elements? -/
def isAmong (lists : Lists) (value : Value) : List Value → Computing Bool
  | [] => .ok false
  | element :: rest => do
      if ← compared lists .equal element value then return true
      else isAmong lists value rest

/-- Does a part of the text equal another text? -/
def occursIn (part : Text) : Text → Bool
  | [] => part.isEmpty
  | first :: rest =>
      part.isPrefixOf (first :: rest) || occursIn part rest

/-- Is the value contained in another one? -/
def isContained (lists : Lists) (value container : Value) :
    Computing Bool :=
  match value, container with
  | _, .tuple elements => isAmong lists value elements
  | _, .list number initial =>
      isAmong lists value (lists.elements number initial)
  | .string part, .string whole => .ok (occursIn part whole)
  | .bytes part, .bytes whole => .ok (occursIn part whole)
  | .integer byte, .bytes whole =>
      if 0 ≤ byte ∧ byte ≤ 0xff then .ok (whole.contains byte.toNat.toUInt8)
      else failed
  | _, _ => failed

/--
Repeat a sequence.

The result must stay below 2^30 elements; an empty sequence can be repeated
any number of times.
-/
def repeatSequence {α : Type} (values : List α) (count : Value) :
    Computing (List α) := do
  if values.isEmpty then return []
  else
    let times ← count.small
    if times < 1 then return []
    else if 0x40000000 ≤ times * values.length then failed
    else return repeated times values

/-- The sum of two values. -/
def plus (left right : Value) : Changing Value :=
  match left, right with
  | .integer x, .integer y => return .integer (x + y)
  | .string x, .string y => return .string (x ++ y)
  | .tuple x, .tuple y => return .tuple (x ++ y)
  | .list number x, .list other y => do
      let lists ← get
      makeList (lists.elements number x ++ lists.elements other y)
  | _, _ => do
      let (x, y) ← Number.both left right
      return .float (x + y)

/-- The difference of two values. -/
def minus (left right : Value) : Computing Value :=
  match left, right with
  | .integer x, .integer y => .ok (.integer (x - y))
  | _, _ => do
      let (x, y) ← Number.both left right
      return .float (x - y)

/-- The product of two values. -/
def times (left right : Value) : Changing Value :=
  match left, right with
  | .integer x, .integer y => return .integer (x * y)
  | .string x, .integer _ => do return .string (← repeatSequence x right)
  | .integer _, .string y => do return .string (← repeatSequence y left)
  | .bytes x, .integer _ => do return .bytes (← repeatSequence x right)
  | .integer _, .bytes y => do return .bytes (← repeatSequence y left)
  | .tuple x, .integer _ => do return .tuple (← repeatSequence x right)
  | .integer _, .tuple y => do return .tuple (← repeatSequence y left)
  | .list number x, .integer _ => do
      makeList (← repeatSequence ((← get).elements number x) right)
  | .integer _, .list number y => do
      makeList (← repeatSequence ((← get).elements number y) left)
  | _, _ => do
      let (x, y) ← Number.both left right
      return .float (x * y)

/-- The quotient of two values, which is never an integer. -/
def divide (left right : Value) : Computing Value := do
  let (x, y) ← Number.quotientOperands left right
  if y == 0 then failed else return .float (x / y)

/-- The quotient of two values, rounded down. -/
def floorDivide (left right : Value) : Computing Value :=
  match left, right with
  | .integer x, .integer y =>
      if y = 0 then failed else .ok (.integer (Int.fdiv x y))
  | _, _ => do
      let (x, y) ← Number.both left right
      if y == 0 then failed else return .float (x / y).floor

/--
The remainder of the quotient rounded down, or a string filled with values.
-/
def remainder (lists : Lists) (left right : Value) : Computing Value :=
  match left, right with
  | .string text, _ => do return .string (← interpolate lists text right)
  | .integer x, .integer y =>
      if y = 0 then failed else .ok (.integer (Int.fmod x y))
  | _, _ => do
      let (x, y) ← Number.both left right
      if y == 0 then failed else return .float (FloatingPoint.remainder x y)

/-- Shift an integer left, by less than 512 places. -/
def shiftLeft (left right : Value) : Computing Value :=
  match left with
  | .integer x => do
      let places ← right.small
      if places < 0 ∨ 512 ≤ places then failed
      else return .integer (x * Nat.pow 2 places.toNat)
  | _ => failed

/-- Shift an integer right, rounding down. -/
def shiftRight (left right : Value) : Computing Value :=
  match left with
  | .integer x => do
      let places ← right.small
      if places < 0 then failed
      else return .integer (x >>> places.toNat)
  | _ => failed

/-- The complement of an integer. -/
def complement (value : Int) : Int :=
  -value - 1

/--
Combine the bits of two integers in two's complement.

`combine` does it for natural numbers and `combineSign` for a single bit,
which settles the sign of the result.
-/
def combineBits (combine : Nat → Nat → Nat)
    (combineSign : Bool → Bool → Bool) (left right : Int) : Int :=
  let size := max (Nat.log2 left.natAbs) (Nat.log2 right.natAbs) + 2
  let modulus : Int := Nat.pow 2 size
  let bits (value : Int) : Nat := (value % modulus).toNat
  let combined := combine (bits left) (bits right)
  if combineSign (left < 0) (right < 0) then combined - modulus else combined

/-- An operation on the bits of two integers. -/
def bitwise (combine : Nat → Nat → Nat) (combineSign : Bool → Bool → Bool)
    (left right : Value) : Computing Value :=
  match left, right with
  | .integer x, .integer y =>
      .ok (.integer (combineBits combine combineSign x y))
  | _, _ => failed

/-- The value of an operator that needs both its operands. -/
def binary (operator : Operator) (left right : Value) :
    Changing Value := do
  let lists ← get
  match operator with
  | .or => return if left.truth lists then left else right
  | .and => return if left.truth lists then right else left
  | .compare comparison =>
      return .bool (← compared lists comparison left right)
  | .contained => return .bool (← isContained lists left right)
  | .notContained => return .bool !(← isContained lists left right)
  | .bitOr => bitwise (· ||| ·) (· || ·) left right
  | .bitXor => bitwise (· ^^^ ·) (· ^^ ·) left right
  | .bitAnd => bitwise (· &&& ·) (· && ·) left right
  | .shiftLeft => shiftLeft left right
  | .shiftRight => shiftRight left right
  | .plus => plus left right
  | .minus => minus left right
  | .times => times left right
  | .divide => divide left right
  | .floorDivide => floorDivide left right
  | .remainder => remainder lists left right

/--
The value of an operator that changes its left operand.

A list to which a sequence is added stays the same list and gets further
elements; any other value makes way for the result.
-/
def updated (operator : Operator) (left right : Value) : Changing Value :=
  match operator, left with
  | .plus, .list number initial => do
      let lists ← get
      let further ← right.elements lists
      set (lists.change number (lists.elements number initial ++ further))
      return left
  | _, _ => binary operator left right

/-- The value of an operator before its operand. -/
def signed (lists : Lists) (sign : Sign) (value : Value) :
    Computing Value :=
  match sign, value with
  | .not, _ => .ok (.bool !value.truth lists)
  | .plus, .integer x => .ok (.integer x)
  | .plus, .float x => .ok (.float x)
  | .minus, .integer x => .ok (.integer (-x))
  | .minus, .float x => .ok (.float (-x))
  | .complement, .integer x => .ok (.integer (complement x))
  | _, _ => failed

/-- A position below a size, counted from the end if it is negative. -/
def placeBelow (size : Nat) (position : Value) : Computing Nat := do
  let place ← position.small
  let index := if place < 0 then place + size else place
  if 0 ≤ index ∧ index < size then return index.toNat else failed

/-- The element at a position. -/
def elementAt {α : Type} (elements : List α) (position : Value) :
    Computing α := do
  match elements[← placeBelow elements.length position]? with
  | some element => return element
  | none => failed

/-- An element of a sequence; that of a string is a string. -/
def index (lists : Lists) (sequence position : Value) : Computing Value :=
  match sequence with
  | .string text => do return .string [← elementAt text position]
  | .bytes values => do
      return .integer (← elementAt values position).toNat
  | .tuple elements => elementAt elements position
  | .list number initial =>
      elementAt (lists.elements number initial) position
  | _ => failed

/-- Put a value in the place of an element, which only a list allows. -/
def setElement (sequence position value : Value) : Changing Unit :=
  match sequence with
  | .list number initial => do
      let lists ← get
      let elements := lists.elements number initial
      let place ← placeBelow elements.length position
      set (lists.change number (elements.set place value))
  | _ => failed

/-- A bound of a slice, counted from the end if it is negative. -/
def boundOr (default : Int) (size : Nat) : Value → Computing Int
  | .nothing => .ok default
  | bound => do
      let place ← bound.small
      return if place < 0 then place + size else place

/-- The positions of a slice: its first and last bound and its step. -/
def sliceBounds (size : Nat) (first last step : Value) :
    Computing (Int × Int × Int) := do
  let stride ← match step with
    | .nothing => pure 1
    | _ => step.small
  if stride = 0 then failed
  else if 0 < stride then
    let low ← first.boundOr 0 size
    let high ← last.boundOr size size
    return (max 0 (min low size), max 0 (min high size), stride)
  else
    let high ← first.boundOr (size - 1) size
    let low ← last.boundOr (-1) size
    return (min high (size - 1), max low (-1), stride)

/-- How many steps lead from one bound to just before the other. -/
def stepCount (first last step : Int) : Nat :=
  if 0 < step then ((last - first + step - 1) / step).toNat
  else ((first - last - step - 1) / -step).toNat

/-- Part of a sequence. -/
def slicePart {α : Type} (elements : List α) (first last step : Value) :
    Computing (List α) := do
  let (start, stop, stride) ←
    sliceBounds elements.length first last step
  let array := elements.toArray
  return (List.range (stepCount start stop stride)).filterMap
    fun (count : Nat) => array[(start + stride * count).toNat]?

/-- Part of a sequence, as a sequence of the same kind. -/
def slice (sequence first last step : Value) : Changing Value :=
  match sequence with
  | .string text => do return .string (← slicePart text first last step)
  | .bytes values => do return .bytes (← slicePart values first last step)
  | .tuple elements => do
      return .tuple (← slicePart elements first last step)
  | .list number initial => do
      let elements := (← get).elements number initial
      makeList (← slicePart elements first last step)
  | _ => failed

end Value

end FlatAsm.Formula
