import FlatAsm.Assembler
import FlatAsm.Formula.Function

/-!
# Running formulas

A formula is first read as a whole, then its names are checked, and only
then is it computed.  Its value is what it assigns to the name `rc`, to
which the text between the parentheses is assigned.

An assembler is given its language of formulas, and this is one of them.  It
has expressions over numbers, strings, tuples and lists, and assignments; what
it lacks, such as dictionaries, comprehensions and most functions, it rejects.
What is proved about assembly holds for any other language as well.
-/

namespace FlatAsm.Formula

/-- The names that a formula may use, with their values. -/
abbrev Names := List (Text × Value)

namespace Passing

/-- How many arguments of one kind a call can have. -/
def limit : Nat := 255

/-- May an argument follow another one? -/
def mayFollow : Passing → Passing → Bool
  | .positional, .positional => true
  | .named _, .positional => true
  | .named parameter, .named other => parameter ≠ other
  | .spread, .positional => true
  | .spread, .named _ => true
  | .spreadNamed, .spreadNamed => false
  | .spreadNamed, _ => true
  | _, _ => false

/-- Does each argument of a call agree with all those before it? -/
def agree : List Passing → List Passing → Bool
  | _, [] => true
  | before, passing :: rest =>
      before.all passing.mayFollow && agree (passing :: before) rest

/-- Is the argument handed over by the name of its parameter? -/
def isNamed : Passing → Bool
  | .named _ => true
  | _ => false

/-- Can a call hand over its arguments like this? -/
def areSound (passings : List Passing) : Bool :=
  agree [] passings && passings.countP (· = .positional) ≤ limit &&
    passings.countP isNamed ≤ limit

end Passing

mutual

/-- Does every name of an expression mean something, and is every call sound? -/
def Expr.isSound (means : Text → Bool) : Expr → Bool
  | .nothing | .integer _ | .float _ | .string _ | .bytes _ => true
  | .name text => means text
  | .signed _ operand => operand.isSound means
  | .binary _ left right => left.isSound means && right.isSound means
  | .conditional yes condition no =>
      yes.isSound means && condition.isSound means && no.isSound means
  | .tuple elements => Expr.areSound means elements
  | .list elements => Expr.areSound means elements
  | .index sequence position =>
      sequence.isSound means && position.isSound means
  | .slice sequence first last step =>
      sequence.isSound means && first.isSound means && last.isSound means &&
        step.isSound means
  | .member value => value.isSound means
  | .call function passings arguments =>
      Passing.areSound passings && function.isSound means &&
        Expr.areSound means arguments

/-- Is every one of the expressions sound? -/
def Expr.areSound (means : Text → Bool) : List Expr → Bool
  | [] => true
  | expression :: rest =>
      expression.isSound means && Expr.areSound means rest

end

mutual

/-- The names that a target assigns to. -/
def Target.names : Target → List Text
  | .name text => [text]
  | .element _ _ | .member _ => []
  | .several targets => Target.namesOfAll targets

/-- The names that some targets assign to. -/
def Target.namesOfAll : List Target → List Text
  | [] => []
  | target :: rest => target.names ++ Target.namesOfAll rest

end

mutual

/-- Does every name inside a target mean something? -/
def Target.isSound (means : Text → Bool) : Target → Bool
  | .name _ => true
  | .element sequence position =>
      sequence.isSound means && position.isSound means
  | .member value => value.isSound means
  | .several targets => Target.areSound means targets

/-- Is every one of the targets sound? -/
def Target.areSound (means : Text → Bool) : List Target → Bool
  | [] => true
  | target :: rest => target.isSound means && Target.areSound means rest

end

namespace Statement

/-- The names that a statement assigns to. -/
def assigned : Statement → List Text
  | .assign target _ => target.names
  | .update target _ _ => target.names
  | _ => []

/-- May the statement stand in a formula, given which names mean something? -/
def isSound (means : Text → Bool) : Statement → Bool
  | .compute value => value.isSound means
  | .assign target value => target.isSound means && value.isSound means
  | .update target _ value => target.isSound means && value.isSound means
  | .misplaced _ => false

end Statement

/-- The names that some statements assign to. -/
def assignedNames (statements : List Statement) : List Text :=
  statements.flatMap Statement.assigned

/-- Are no two of the texts equal? -/
def allDistinct : List Text → Bool
  | [] => true
  | first :: rest => !rest.contains first && allDistinct rest

/--
Does every name of a formula mean something, and each just one thing?

A name that is assigned to anywhere means that variable everywhere.
-/
def areSound (known : Names) (statements : List Statement) : Bool :=
  let assigned := assignedNames statements
  let means (name : Text) : Bool :=
    assigned.contains name || (known.lookup name).isSome
  allDistinct assigned && statements.all (Statement.isSound means)

/-- Where a formula finds the values of its names. -/
structure Scope where
  /-- The names that the formula itself assigns to. -/
  assigned : List Text
  /-- The values of those it has assigned to so far. -/
  values : Names
  /-- The names that come from outside. -/
  known : Names

namespace Scope

/-- The value of a name; a variable has none before its assignment. -/
def value (scope : Scope) (name : Text) : Computing Value :=
  let found :=
    if scope.assigned.contains name then scope.values.lookup name
    else scope.known.lookup name
  match found with
  | some value => .ok value
  | none => failed

/-- Give a variable a value. -/
def assign (scope : Scope) (name : Text) (value : Value) : Scope :=
  { scope with values := (name, value) :: scope.values }

end Scope

mutual

/-- Compute an expression. -/
def Expr.compute (scope : Scope) : Expr → Changing Value
  | .nothing => return .nothing
  | .integer value => return .integer value
  | .float value => return .float value
  | .string text => return .string text
  | .bytes values => return .bytes values
  | .name text => scope.value text
  | .signed sign operand => do
      let value ← operand.compute scope
      Value.signed (← get) sign value
  | .binary .or left right => do
      let value ← left.compute scope
      if value.truth (← get) then return value else right.compute scope
  | .binary .and left right => do
      let value ← left.compute scope
      if value.truth (← get) then right.compute scope else return value
  | .binary operator left right => do
      let first ← left.compute scope
      let second ← right.compute scope
      Value.binary operator first second
  | .conditional yes condition no => do
      let value ← condition.compute scope
      if value.truth (← get) then yes.compute scope else no.compute scope
  | .tuple elements => do return .tuple (← Expr.computeAll scope elements)
  | .list elements => do makeList (← Expr.computeAll scope elements)
  | .index sequence position => do
      let value ← sequence.compute scope
      let place ← position.compute scope
      Value.index (← get) value place
  | .slice sequence first last step => do
      let value ← sequence.compute scope
      let low ← first.compute scope
      let high ← last.compute scope
      Value.slice value low high (← step.compute scope)
  | .member value => do
      let _ ← value.compute scope
      failed
  | .call function passings arguments => do
      let value ← function.compute scope
      let values ← Expr.computeAll scope arguments
      let lists ← get
      Formula.call lists value
        (← Arguments.gather lists (passings.zip values))

/-- Compute expressions from left to right. -/
def Expr.computeAll (scope : Scope) : List Expr → Changing (List Value)
  | [] => return []
  | expression :: rest => do
      let value ← expression.compute scope
      return value :: (← Expr.computeAll scope rest)

end

mutual

/-- Give a target a value. -/
def Target.assign (scope : Scope) (value : Value) : Target → Changing Scope
  | .name text => return scope.assign text value
  | .element sequence position => do
      let container ← sequence.compute scope
      Value.setElement container (← position.compute scope) value
      return scope
  | .member holder => do
      let _ ← holder.compute scope
      failed
  | .several targets => do
      Target.assignAll scope targets (← value.elements (← get))

/-- Give targets the values of a list, which has to be as long. -/
def Target.assignAll (scope : Scope) : List Target → List Value →
    Changing Scope
  | [], [] => return scope
  | target :: targets, value :: values => do
      Target.assignAll (← target.assign scope value) targets values
  | _, _ => failed

end

/-- Give a target what it has, combined with the value of an expression. -/
def Target.update (scope : Scope) (operator : Operator) (operand : Expr) :
    Target → Changing Scope
  | .name text => do
      let current ← scope.value text
      let value ← Value.updated operator current (← operand.compute scope)
      return scope.assign text value
  | .element sequence position => do
      let container ← sequence.compute scope
      let place ← position.compute scope
      let current ← Value.index (← get) container place
      let value ← Value.updated operator current (← operand.compute scope)
      Value.setElement container place value
      return scope
  | .member _ | .several _ => failed

/-- Carry out a statement. -/
def Statement.run (scope : Scope) : Statement → Changing Scope
  | .compute value => do
      let _ ← value.compute scope
      return scope
  | .assign target value => do
      target.assign scope (← value.compute scope)
  | .update target operator value => target.update scope operator value
  | .misplaced _ => failed

/-- What a formula assigns to a name, if it does. -/
def resultOf (known : Names) (result : Text) (text : Text) :
    Except FormulaStage (Option Value) := do
  let parsed ← statements text
  if !areSound known parsed then .error .names
  else
    let scope : Scope := ⟨assignedNames parsed, [], known⟩
    let final ← (parsed.foldlM Statement.run scope).run' Lists.empty
    return final.values.lookup result

/--
The names that a formula finds: the values of constants, its line and the
default width in bits, and the names that every formula knows.
-/
def knownNames (width : Width) (constants : Table Int64) (line : Int) :
    Names :=
  constants.entries.map (fun entry =>
    (entry.1, Value.integer entry.2.toInt)) ++
    (Text.ascii "LINENO", .integer line) ::
    (Text.ascii "WIDTH", .integer width.bits) :: universal

/-- The value of a formula, which has to be an integer of 64 bits. -/
def evaluate (width : Width) (constants : Table Int64) : Evaluator :=
  fun formula line =>
    let known := knownNames width constants line
    let text := Text.ascii "rc=" ++ formula ++ [0x0a]
    match resultOf known (Text.ascii "rc") text with
    | .error stage => .error (.formulaRejected stage)
    | .ok (some (.integer value)) =>
        if Int64.minValue.toInt ≤ value ∧ value ≤ Int64.maxValue.toInt then
          .ok (Int64.ofInt value)
        else .error (.formulaInvalid formula)
    | .ok _ => .error (.formulaInvalid formula)

end FlatAsm.Formula
