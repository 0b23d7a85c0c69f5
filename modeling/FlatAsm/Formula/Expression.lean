import FlatAsm.Formula.Lexeme

/-!
# Expressions of formulas

A formula is a sequence of statements, most of them assignments of an
expression to a name.  Operators bind by precedence: a conditional binds
least, then `or`, `and`, `not`, the comparisons, which do not chain, and the
arithmetic operators.  Signs bind more than any operator between two values.
-/

namespace FlatAsm.Formula

/-- A comparison of two values. -/
inductive Comparison where
  | equal
  | different
  | less
  | greater
  | lessOrEqual
  | greaterOrEqual
  deriving DecidableEq, Repr

/-- An operator between two values. -/
inductive Operator where
  | or
  | and
  | compare (comparison : Comparison)
  | contained
  | notContained
  | bitOr
  | bitXor
  | bitAnd
  | shiftLeft
  | shiftRight
  | plus
  | minus
  | times
  | divide
  | floorDivide
  | remainder
  deriving DecidableEq, Repr

/-- An operator before a value. -/
inductive Sign where
  | not
  | plus
  | minus
  | complement
  deriving DecidableEq, Repr

/-- How an argument is handed to a function. -/
inductive Passing where
  | positional
  | named (parameter : Text)
  /-- A sequence whose elements are the arguments. -/
  | spread
  /-- A mapping from parameters to arguments. -/
  | spreadNamed
  deriving DecidableEq, Repr

/-- An expression. -/
inductive Expr where
  /-- A part of a slice that is left out. -/
  | nothing
  | integer (value : Nat)
  | float (value : Float)
  | string (text : Text)
  | bytes (values : Text)
  | name (text : Text)
  | signed (sign : Sign) (operand : Expr)
  | binary (operator : Operator) (left right : Expr)
  | conditional (yes condition no : Expr)
  | tuple (elements : List Expr)
  | list (elements : List Expr)
  | index (sequence position : Expr)
  /-- A part of a sequence, from a position to another one in some steps. -/
  | slice (sequence first last step : Expr)
  /-- A member of a value; no value that formulas use has any. -/
  | member (value : Expr)
  | call (function : Expr) (passings : List Passing) (arguments : List Expr)
  deriving Repr

/-- What an assignment gives values to. -/
inductive Target where
  | name (text : Text)
  /-- An element of a sequence. -/
  | element (sequence position : Expr)
  /-- A member of a value. -/
  | member (value : Expr)
  /-- The elements of the value go to one target each. -/
  | several (targets : List Target)
  deriving Repr

mutual

/-- The target that an expression is on the left of an assignment. -/
def Expr.target? : Expr → Option Target
  | .name text => some (.name text)
  | .index sequence position => some (.element sequence position)
  | .member value => some (.member value)
  | .tuple elements => (Expr.targets? elements).map .several
  | .list elements => (Expr.targets? elements).map .several
  | _ => none

/-- The targets that all of some expressions are. -/
def Expr.targets? : List Expr → Option (List Target)
  | [] => some []
  | element :: rest =>
      match element.target?, Expr.targets? rest with
      | some target, some targets => some (target :: targets)
      | _, _ => none

end

/-- Does the target stand for more than one place? -/
def Target.isSeveral : Target → Bool
  | .several _ => true
  | _ => false

/-- A statement of a formula. -/
inductive Statement where
  /-- An expression whose value is not used. -/
  | compute (value : Expr)
  | assign (target : Target) (value : Expr)
  /-- An assignment of what the target has, combined with a value. -/
  | update (target : Target) (operator : Operator) (value : Expr)
  /-- A statement that is not allowed where it stands. -/
  | misplaced (parts : List Expr)
  deriving Repr

/-- Parsing takes lexemes from a list. -/
abbrev Reading (α : Type) := StateT (List Lexeme) (Except FormulaStage) α

namespace Reading

/-- The spelling of the next lexeme if it is a mark. -/
def peek : Reading (Option String) := do
  match ← get with
  | .mark spelling :: _ => return some spelling
  | _ => return none

/-- Move past the next lexeme. -/
def skip : Reading Unit :=
  modify fun lexemes => lexemes.drop 1

/-- Move past a mark, which has to be there. -/
def expect (spelling : String) : Reading Unit := do
  if (← peek) = some spelling then skip else throw .grammar

/-- Move past a mark if it is there, and say whether it was. -/
def accept (spelling : String) : Reading Bool := do
  if (← peek) = some spelling then
    skip
    return true
  else return false

/-- The operators that are spelled with one mark, with their precedence. -/
def operatorTable : List (String × Operator × Nat) :=
  [("or", .or, 0), ("and", .and, 1),
    ("==", .compare .equal, 3), ("!=", .compare .different, 3),
    ("<", .compare .less, 3), (">", .compare .greater, 3),
    ("<=", .compare .lessOrEqual, 3), (">=", .compare .greaterOrEqual, 3),
    ("in", .contained, 3),
    ("|", .bitOr, 4), ("^", .bitXor, 5), ("&", .bitAnd, 6),
    ("<<", .shiftLeft, 7), (">>", .shiftRight, 7),
    ("-", .minus, 8), ("+", .plus, 8),
    ("*", .times, 9), ("%", .remainder, 9), ("/", .divide, 9),
    ("//", .floorDivide, 9)]

/-- The precedence of `not`. -/
def notPrecedence : Nat := 2

/-- The precedence of the comparisons. -/
def comparisonPrecedence : Nat := 3

/-- The operator at the front, its precedence and its number of lexemes. -/
def operatorAt? : List Lexeme → Option (Operator × Nat × Nat)
  | .mark "not" :: .mark "in" :: _ =>
      some (.notContained, comparisonPrecedence, 2)
  | .mark spelling :: _ =>
      (operatorTable.lookup spelling).map fun found => (found.1, found.2, 1)
  | _ => none

/-- The sign that a mark is before a value. -/
def signOf? : String → Option Sign
  | "+" => some .plus
  | "-" => some .minus
  | "~" => some .complement
  | _ => none

/-- Does a list of expressions end before this mark? -/
def endsList (spelling : String) : Bool :=
  ["=", ")", "]", "\x7d", ";"].contains spelling

/-- Does a list of expressions end here? -/
def listEnded : Reading Bool := do
  match ← get with
  | [] | .lineEnd :: _ => return true
  | .mark spelling :: _ => return endsList spelling
  | _ => return false

/-- Does a statement end here? -/
def ended : Reading Bool := do
  match ← get with
  | [] | .lineEnd :: _ | .mark ";" :: _ => return true
  | _ => return false

mutual

/-- Parse an expression without a bare comma. -/
def expression : Nat → Reading Expr
  | 0 => throw .grammar
  | fuel + 1 => do
      let value ← operation fuel 0
      if ← accept "if" then
        let condition ← operation fuel 0
        expect "else"
        return .conditional value condition (← expression fuel)
      else return value

/-- Parse operators of at least some precedence, and their operands. -/
def operation : Nat → Nat → Reading Expr
  | 0, _ => throw .grammar
  | fuel + 1, precedence => do
      if precedence ≤ notPrecedence ∧ (← peek) = some "not" then
        skip
        let operand ← operation fuel notPrecedence
        operations fuel precedence false (.signed .not operand)
      else operations fuel precedence false (← primary fuel)

/--
Parse further operators of at least some precedence after a value.

A comparison that has just been made cannot be compared again.
-/
def operations : Nat → Nat → Bool → Expr → Reading Expr
  | 0, _, _, _ => throw .grammar
  | fuel + 1, precedence, compared, left => do
      match operatorAt? (← get) with
      | none => return left
      | some (operator, binding, size) =>
          if binding < precedence then return left
          else if compared ∧ binding = comparisonPrecedence then
            throw .grammar
          else
            modify fun lexemes => lexemes.drop size
            let right ← operation fuel (binding + 1)
            operations fuel precedence (binding = comparisonPrecedence)
              (.binary operator left right)

/-- Parse a value with everything that follows it directly. -/
def primary : Nat → Reading Expr
  | 0 => throw .grammar
  | fuel + 1 => do
      match ← get with
      | .integer value :: _ => skip; suffixes fuel (.integer value)
      | .float value :: _ => skip; suffixes fuel (.float value)
      | .string text :: _ => skip; suffixes fuel (.string text)
      | .bytes values :: _ => skip; suffixes fuel (.bytes values)
      | .name text :: _ => skip; suffixes fuel (.name text)
      | .mark "(" :: .mark ")" :: _ =>
          skip
          skip
          suffixes fuel (.tuple [])
      | .mark "(" :: _ =>
          skip
          let value ← expressions fuel true
          expect ")"
          suffixes fuel value
      | .mark "[" :: _ =>
          skip
          let elements ← elementsUntil fuel "]" []
          suffixes fuel (.list elements)
      | .mark spelling :: _ =>
          match signOf? spelling with
          | none => throw .grammar
          | some sign =>
              skip
              return .signed sign (← primary fuel)
      | _ => throw .grammar

/-- Parse calls, indices and members after a value. -/
def suffixes : Nat → Expr → Reading Expr
  | 0, _ => throw .grammar
  | fuel + 1, value => do
      if ← accept "(" then
        let arguments ← argumentsOnto fuel []
        suffixes fuel
          (.call value (arguments.map Prod.fst) (arguments.map Prod.snd))
      else if ← accept "[" then suffixes fuel (← subscript fuel value)
      else if ← accept "." then
        match ← get with
        | .name _ :: _ =>
            skip
            suffixes fuel (.member value)
        | _ => throw .grammar
      else return value

/-- Parse an index or a slice of a value, from the bracket on. -/
def subscript : Nat → Expr → Reading Expr
  | 0, _ => throw .grammar
  | fuel + 1, value => do
      let first ←
        if (← peek) = some ":" then pure .nothing
        else expressions fuel false
      if ← accept "]" then return .index value first
      else
        let last ← bound fuel
        let step ← bound fuel
        expect "]"
        return .slice value first last step

/-- Parse the colon before a part of a slice, and the part if it is there. -/
def bound : Nat → Reading Expr
  | 0 => throw .grammar
  | fuel + 1 => do
      if ← accept ":" then
        match ← peek with
        | some ":" | some "]" => return .nothing
        | _ => expression fuel
      else return .nothing

/-- Parse the arguments of a call, onto those before, held in reverse. -/
def argumentsOnto : Nat → List (Passing × Expr) →
    Reading (List (Passing × Expr))
  | 0, _ => throw .grammar
  | fuel + 1, reversed => do
      if ← accept ")" then return reversed.reverse
      else
        let argument ← argument fuel
        if ← accept "," then argumentsOnto fuel (argument :: reversed)
        else
          expect ")"
          return (argument :: reversed).reverse

/-- Parse an argument of a call. -/
def argument : Nat → Reading (Passing × Expr)
  | 0 => throw .grammar
  | fuel + 1 => do
      if ← accept "*" then return (.spread, ← expression fuel)
      else if ← accept "**" then return (.spreadNamed, ← expression fuel)
      else
        match ← get with
        | .name parameter :: .mark "=" :: _ =>
            skip
            skip
            return (.named parameter, ← expression fuel)
        | _ => return (.positional, ← expression fuel)

/-- Parse expressions with commas up to a bracket; a last comma may follow. -/
def elementsUntil : Nat → String → List Expr → Reading (List Expr)
  | 0, _, _ => throw .grammar
  | fuel + 1, close, reversed => do
      if ← accept close then return reversed.reverse
      else
        let element ← expression fuel
        if ← accept "," then elementsUntil fuel close (element :: reversed)
        else
          expect close
          return (element :: reversed).reverse

/-- Parse an expression, or several with commas, which make a tuple. -/
def expressions : Nat → Bool → Reading Expr
  | 0, _ => throw .grammar
  | fuel + 1, bracketed => do
      let first ← expression fuel
      if (← peek) = some "," then
        return .tuple (← furtherElements fuel bracketed [first])
      else return first

/-- Parse the rest of a tuple, from a comma on. -/
def furtherElements : Nat → Bool → List Expr → Reading (List Expr)
  | 0, _, _ => throw .grammar
  | fuel + 1, bracketed, reversed => do
      if ← accept "," then
        if ← listEnded then
          if bracketed then return reversed.reverse else throw .grammar
        else
          let element ← expression fuel
          furtherElements fuel bracketed (element :: reversed)
      else return reversed.reverse

end

/-- The marks that read a target before they assign to it. -/
def updateTable : List (String × Operator) :=
  [("+=", .plus), ("-=", .minus), ("*=", .times), ("/=", .divide),
    ("//=", .floorDivide), ("%=", .remainder), ("&=", .bitAnd),
    ("|=", .bitOr), ("^=", .bitXor), ("<<=", .shiftLeft),
    (">>=", .shiftRight)]

/-- Parse a statement. -/
def statement (fuel : Nat) : Reading Statement := do
  if ← accept "pass" then return .compute (.integer 0)
  else if ← accept "break" then return .misplaced []
  else if ← accept "continue" then return .misplaced []
  else if ← accept "return" then
    if ← ended then return .misplaced []
    else return .misplaced [← expressions fuel false]
  else
    let target ← expressions fuel false
    let mark := (← peek).getD ""
    if mark = "=" then
      skip
      let value ← expressions fuel false
      match target.target? with
      | some found => return .assign found value
      | none => return .misplaced [target, value]
    else
      match updateTable.lookup mark with
      | none => return .compute target
      | some operator =>
          skip
          let value ← expressions fuel false
          match target.target? with
          | some found =>
              if found.isSeveral then return .misplaced [target, value]
              else return .update found operator value
          | none => return .misplaced [target, value]

/-- Parse statements up to the end of the lexemes. -/
def statements (fuel : Nat) : Nat → List Statement →
    Reading (List Statement)
  | 0, _ => throw .grammar
  | rounds + 1, reversed => do
      match ← get with
      | [] => return reversed.reverse
      | .lineEnd :: _ =>
          skip
          statements fuel rounds reversed
      | _ =>
          let next ← statement fuel
          match ← get with
          | [] => return (next :: reversed).reverse
          | .lineEnd :: _ => statements fuel rounds (next :: reversed)
          | .mark ";" :: _ =>
              skip
              statements fuel rounds (next :: reversed)
          | _ => throw .grammar

end Reading

/--
The statements of a formula.

Between two lexemes no more than eight parsing functions call each other, so
eight times the number of lexemes bounds how deep their calls go.
-/
def statements (text : Text) : Except FormulaStage (List Statement) := do
  let found ← lexemes text
  let (parsed, _) ←
    (Reading.statements (8 * (found.length + 1)) (2 * found.length + 1)
      []).run found
  return parsed

end FlatAsm.Formula
