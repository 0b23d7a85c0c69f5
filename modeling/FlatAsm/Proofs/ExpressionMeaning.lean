import FlatAsm.Proofs.ArgumentGrammar

/-!
# What expressions mean

An expression is read here as a tree that some tokens spell.  Its value is an
integer without bounds, which depends on the values of its names, and every
name occurs in it a number of times, where an occurrence under an odd number
of signs counts against the others.

Parsing the tokens of an expression gives a symbolic integer that agrees with
both as far as words can.  It resolves to the value modulo 2⁶⁴, and a label
counts in it unless its occurrences add up to a multiple of 2⁶⁴.
-/

namespace FlatAsm.Grammar

/-! ## Expressions as trees -/

/-- An integer or a name under any number of minus signs. -/
inductive Term where
  | integer (number : Int64)
  | name (name : Text)
  | negated (inner : Term)
  deriving DecidableEq, Repr

/-- Terms under sums and differences, taken from left to right. -/
inductive Chain where
  | term (only : Term)
  | sum (earlier : Chain) (last : Term)
  | difference (earlier : Chain) (last : Term)
  deriving DecidableEq, Repr

/-- The tokens spell the term. -/
inductive Term.SpelledBy : Term → List Token → Prop where
  | integer {token : Token} {number : Int64}
      (kind : token.kind = .integer number) :
      SpelledBy (.integer number) [token]
  | name {token : Token} (kind : token.kind = .identifier) :
      SpelledBy (.name token.text) [token]
  | negated {minus : Token} {tokens : List Token} {inner : Term}
      (sign : minus.kind = .punctuation .minus)
      (spelled : SpelledBy inner tokens) :
      SpelledBy (.negated inner) (minus :: tokens)

/-- The tokens spell the chain, sign by sign. -/
inductive Chain.SpelledBy : Chain → List Token → Prop where
  | term {only : Term} {tokens : List Token}
      (spelled : only.SpelledBy tokens) :
      SpelledBy (.term only) tokens
  | sum {earlier : Chain} {last : Term} {front back : List Token}
      {plus : Token} (first : SpelledBy earlier front)
      (sign : plus.kind = .punctuation .plus)
      (second : last.SpelledBy back) :
      SpelledBy (.sum earlier last) (front ++ plus :: back)
  | difference {earlier : Chain} {last : Term} {front back : List Token}
      {minus : Token} (first : SpelledBy earlier front)
      (sign : minus.kind = .punctuation .minus)
      (second : last.SpelledBy back) :
      SpelledBy (.difference earlier last) (front ++ minus :: back)

/-- The names in a term. -/
def Term.names : Term → List Text
  | .integer _ => []
  | .name only => [only]
  | .negated inner => inner.names

/-- The names in a chain, from left to right. -/
def Chain.names : Chain → List Text
  | .term only => only.names
  | .sum earlier last | .difference earlier last =>
      earlier.names ++ last.names

/-- What a term amounts to, given what integers and names amount to. -/
def Term.total (integer : Int64 → Int) (name : Text → Int) : Term → Int
  | .integer number => integer number
  | .name other => name other
  | .negated inner => -inner.total integer name

/-- What a chain amounts to, from left to right. -/
def Chain.total (integer : Int64 → Int) (name : Text → Int) : Chain → Int
  | .term only => only.total integer name
  | .sum earlier last =>
      earlier.total integer name + last.total integer name
  | .difference earlier last =>
      earlier.total integer name - last.total integer name

/-- The value of a chain without wrap-around, for given values of names. -/
def Chain.value (name : Text → Int) (chain : Chain) : Int :=
  chain.total Int64.toInt name

/--
How often a label occurs in a chain, counted with signs.

A name that has been given a value is no label.
-/
def Chain.occurrences (constants : Table Int64) (label : Text)
    (chain : Chain) : Int :=
  chain.total (fun _ => 0) fun name =>
    if name = label ∧ constants.find? name = none then 1 else 0

/-- A name is its constant if it has been given one, else an address. -/
def nameNumber (constants : Table Int64) (addresses : Table Int)
    (name : Text) : Int :=
  match constants.find? name with
  | some number => number.toInt
  | none => (addresses.find? name).getD 0

theorem Term.total_eq_zero {integer : Int64 → Int} {name : Text → Int}
    {term : Term} (integers : ∀ number, integer number = 0)
    (names : ∀ other ∈ term.names, name other = 0) :
    term.total integer name = 0 := by
  induction term with
  | integer number => exact integers number
  | name other => exact names other List.mem_cons_self
  | negated inner inductionHypothesis =>
      rw [total, inductionHypothesis names, Int.neg_zero]

theorem Chain.total_eq_zero {integer : Int64 → Int} {name : Text → Int}
    {chain : Chain} (integers : ∀ number, integer number = 0)
    (names : ∀ other ∈ chain.names, name other = 0) :
    chain.total integer name = 0 := by
  induction chain with
  | term only => exact Term.total_eq_zero integers names
  | sum earlier last inductionHypothesis =>
      rcases List.forall_mem_append.1 names with ⟨first, second⟩
      rw [total, inductionHypothesis first,
        Term.total_eq_zero integers second, Int.add_zero]
  | difference earlier last inductionHypothesis =>
      rcases List.forall_mem_append.1 names with ⟨first, second⟩
      rw [total, inductionHypothesis first,
        Term.total_eq_zero integers second, Int.sub_zero]

theorem Chain.mem_names_of_occurrences {constants : Table Int64}
    {label : Text} {chain : Chain}
    (occurs : chain.occurrences constants label ≠ 0) :
    label ∈ chain.names ∧ constants.find? label = none := by
  by_contra absent
  refine occurs (total_eq_zero (fun _ => rfl) ?_)
  intro other member
  rw [if_neg]
  rintro ⟨rfl, unknown⟩
  exact absent ⟨member, unknown⟩

/-! ## The symbolic integer of an expression -/

/-- The symbolic integer that a term stands for. -/
def Term.symbolic (constants : Table Int64) : Term → SymInt
  | .integer number => .constant number
  | .name only => Parse.nameValue constants only
  | .negated inner => (inner.symbolic constants).neg

/-- The symbolic integer that a chain stands for. -/
def Chain.symbolic (constants : Table Int64) : Chain → SymInt
  | .term only => only.symbolic constants
  | .sum earlier last =>
      (earlier.symbolic constants).add (last.symbolic constants)
  | .difference earlier last =>
      (earlier.symbolic constants).sub (last.symbolic constants)

variable {constants : Table Int64}

theorem Term.SpelledBy.isTerm {term : Term} {tokens : List Token}
    (spelled : term.SpelledBy tokens) :
    IsTerm constants tokens (term.symbolic constants) := by
  induction spelled with
  | integer kind => exact .integer kind
  | @name token kind =>
      cases found : constants.find? token.text with
      | some number =>
          simp only [symbolic, Parse.nameValue, found]
          exact .constant kind found
      | none =>
          simp only [symbolic, Parse.nameValue, found]
          exact .label kind found
  | negated sign _ inductionHypothesis =>
      exact .negated sign inductionHypothesis

theorem Chain.SpelledBy.isExpression {chain : Chain} {tokens : List Token}
    (spelled : chain.SpelledBy tokens) :
    IsExpression constants tokens (chain.symbolic constants) := by
  induction spelled with
  | term spelled => exact .term spelled.isTerm
  | sum _ sign second inductionHypothesis =>
      exact .sum inductionHypothesis sign second.isTerm
  | difference _ sign second inductionHypothesis =>
      exact .difference inductionHypothesis sign second.isTerm

/-- A word that sums, differences and negatives carry over to. -/
structure IsLinear (measure : SymInt → Int64) : Prop where
  zero : measure (.constant 0) = 0
  combine : ∀ left sign right,
    measure (left.combine sign right) = measure left + sign * measure right

namespace IsLinear

variable {measure : SymInt → Int64}

theorem add (linear : IsLinear measure) (left right : SymInt) :
    measure (left.add right) = measure left + measure right := by
  rw [SymInt.add, linear.combine, Int64.one_mul]

theorem sub (linear : IsLinear measure) (left right : SymInt) :
    measure (left.sub right) = measure left - measure right := by
  rw [SymInt.sub, linear.combine, Int64.neg_mul, Int64.one_mul,
    ← Int64.sub_eq_add_neg]

theorem neg (linear : IsLinear measure) (value : SymInt) :
    measure value.neg = -measure value := by
  rw [SymInt.neg, linear.sub, linear.zero, Int64.zero_sub]

theorem weigh (weight : Text → Int64) :
    IsLinear fun value => value.weigh weight :=
  ⟨SymInt.weigh_constant weight 0, SymInt.weigh_combine weight⟩

theorem coefficient (label : Text) :
    IsLinear fun value => value.coefficient label :=
  ⟨rfl, fun left sign right =>
    SymInt.coefficient_combine left sign right label⟩

end IsLinear

section

variable {measure : SymInt → Int64} {integer : Int64 → Int}
  {name : Text → Int}

theorem Term.measure_symbolic (linear : IsLinear measure)
    (integers : ∀ number,
      measure (.constant number) = Int64.ofInt (integer number))
    (names : ∀ other, measure (Parse.nameValue constants other) =
      Int64.ofInt (name other))
    (term : Term) :
    measure (term.symbolic constants) =
      Int64.ofInt (term.total integer name) := by
  induction term with
  | integer number => exact integers number
  | name other => exact names other
  | negated inner inductionHypothesis =>
      rw [symbolic, total, linear.neg, inductionHypothesis, Int64.ofInt_neg]

/-- What is linear in symbolic integers is a total, up to wrap-around. -/
theorem Chain.measure_symbolic (linear : IsLinear measure)
    (integers : ∀ number,
      measure (.constant number) = Int64.ofInt (integer number))
    (names : ∀ other, measure (Parse.nameValue constants other) =
      Int64.ofInt (name other))
    (chain : Chain) :
    measure (chain.symbolic constants) =
      Int64.ofInt (chain.total integer name) := by
  have term := Term.measure_symbolic linear integers names
  induction chain with
  | term only => exact term only
  | sum earlier last inductionHypothesis =>
      rw [symbolic, total, linear.add, inductionHypothesis, term last,
        Int64.ofInt_add]
  | difference earlier last inductionHypothesis =>
      rw [symbolic, total, linear.sub, inductionHypothesis, term last,
        Int64.ofInt_sub]

end

theorem Chain.weigh_symbolic (addresses : Table Int) (chain : Chain) :
    (chain.symbolic constants).weigh (SymInt.addressWord addresses) =
      Int64.ofInt (chain.value (nameNumber constants addresses)) := by
  apply measure_symbolic (.weigh (SymInt.addressWord addresses))
  · intro number
    rw [SymInt.weigh_constant, Int64.ofInt_toInt]
  · intro other
    cases found : constants.find? other with
    | some number =>
        simp [Parse.nameValue, nameNumber, found, SymInt.weigh_constant]
    | none =>
        simp [Parse.nameValue, nameNumber, found, SymInt.weigh_symbol,
          SymInt.addressWord]

/-- The coefficient of a label is how often it occurs. -/
theorem Chain.coefficient_symbolic (label : Text) (chain : Chain) :
    (chain.symbolic constants).coefficient label =
      Int64.ofInt (chain.occurrences constants label) := by
  apply measure_symbolic (.coefficient label)
  · intro number
    rfl
  · intro other
    cases found : constants.find? other with
    | some number => simp [Parse.nameValue, found]
    | none =>
        simp only [Parse.nameValue, found, SymInt.coefficient_symbol,
          and_true, eq_comm]
        split <;> rfl

theorem ofInt_eq_zero_iff {number : Int} :
    Int64.ofInt number = 0 ↔ (2 ^ 64 : Int) ∣ number := by
  rw [Int64.ofInt_eq_iff_bmod_eq_toInt]
  exact Int.dvd_iff_bmod_eq_zero.symm

theorem Chain.known_symbolic {addresses : Table Int} {chain : Chain}
    (known : ∀ name ∈ chain.names, constants.find? name = none →
      addresses.contains name = true) :
    (chain.symbolic constants).Known addresses := by
  intro label nonzero
  have occurs : chain.occurrences constants label ≠ 0 := by
    intro none
    rw [chain.coefficient_symbolic, none] at nonzero
    exact nonzero rfl
  rcases mem_names_of_occurrences occurs with ⟨member, unknown⟩
  exact known label member unknown

end FlatAsm.Grammar

namespace FlatAsm.Parse

open Cursor (Passes)
open Grammar

/--
Parsing the tokens of an expression, where no further sign follows, moves past
all of them.  The result does not depend on addresses.  It has the labels
whose occurrences do not cancel modulo 2⁶⁴, and resolves to the value of the
expression modulo 2⁶⁴ wherever all its labels have addresses.
-/
theorem expression_means {constants : Table Int64} {chain : Chain}
    {tokens : List Token} {cursor after : Cursor}
    (spelled : chain.SpelledBy tokens)
    (passed : Passes cursor tokens after)
    (noPlus : after.current.kind ≠ .punctuation .plus)
    (noMinus : after.current.kind ≠ .punctuation .minus) :
    ∃ value, expression constants cursor = .ok value after ∧
      (∀ label, value.coefficient label ≠ 0 ↔
        ¬ (2 ^ 64 : Int) ∣ chain.occurrences constants label) ∧
      ∀ addresses : Table Int,
        (∀ name ∈ chain.names, constants.find? name = none →
          addresses.contains name = true) →
        value.resolve addresses =
          (Int64.ofInt (chain.value (nameNumber constants addresses)),
            true) := by
  have ends : joinPart? after.current = none := by
    unfold joinPart?
    split
    · next plus => exact absurd plus noPlus
    · next minus => exact absurd minus noMinus
    · rfl
  refine ⟨chain.symbolic constants,
    expression_complete spelled.isExpression passed ends, ?_, ?_⟩
  · intro label
    rw [chain.coefficient_symbolic, Ne, ofInt_eq_zero_iff]
  · intro addresses known
    rw [SymInt.resolve_of_known (Chain.known_symbolic known),
      chain.weigh_symbolic]

/-- A label that cancels, one under two minus signs, and a constant. -/
def cancellingChain : Chain :=
  .sum (.difference (.difference (.term (.name (Text.ascii "x")))
    (.negated (.name (Text.ascii "y")))) (.name (Text.ascii "x")))
    (.name (Text.ascii "top"))

/-- A name on the first line. -/
def nameToken (name : Text) : Token :=
  ⟨.identifier, 1, name⟩

/-- A mark on the first line. -/
def markToken (mark : Mark) : Token :=
  ⟨.punctuation mark, 1, [mark.byte]⟩

/-- The tokens of `x - -y - x + top` after the first. -/
def cancellingTail : List Token :=
  [markToken .minus, markToken .minus, nameToken (Text.ascii "y"),
    markToken .minus, nameToken (Text.ascii "x"), markToken .plus,
    nameToken (Text.ascii "top")]

theorem cancellingChain_spelledBy :
    cancellingChain.SpelledBy
      (nameToken (Text.ascii "x") :: cancellingTail) := by
  have name (name : Text) : Term.SpelledBy (.name name) [nameToken name] :=
    @Term.SpelledBy.name (nameToken name) rfl
  have twice : Term.SpelledBy (.negated (.name (Text.ascii "y")))
      [markToken .minus, nameToken (Text.ascii "y")] :=
    .negated rfl (name _)
  exact .sum (.difference (.difference (.term (name _)) rfl twice) rfl
    (name _)) rfl (name _)

/-- The label that cancels is gone, and the sum wraps around. -/
theorem cancellingChain_means :
    ∃ value,
      expression (Table.ofList [(Text.ascii "top", Int64.maxValue)])
          ⟨nameToken (Text.ascii "x"),
            cancellingTail ++ [markToken .closeBracket], none⟩ =
        .ok value ⟨markToken .closeBracket, [], none⟩ ∧
      value.coefficient (Text.ascii "x") = 0 ∧
      value.coefficient (Text.ascii "y") ≠ 0 ∧
      value.resolve (Table.ofList
          [(Text.ascii "x", 7), (Text.ascii "y", 3)]) =
        (Int64.minValue + 2, true) := by
  have passed : Passes
      ⟨nameToken (Text.ascii "x"),
        cancellingTail ++ [markToken .closeBracket], none⟩
      (nameToken (Text.ascii "x") :: cancellingTail)
      ⟨markToken .closeBracket, [], none⟩ :=
    .move rfl (.move rfl (.move rfl (.move rfl (.move rfl (.move rfl
      (.move rfl (.move rfl .here)))))))
  rcases @expression_means
      (Table.ofList [(Text.ascii "top", Int64.maxValue)]) _ _ _ _
      cancellingChain_spelledBy passed (by decide) (by decide) with
    ⟨value, parsed, labels, resolves⟩
  refine ⟨value, parsed, ?_, ?_, ?_⟩
  · by_contra counts
    exact (labels _).1 counts (by decide)
  · exact (labels _).2 (by decide)
  · rw [resolves _ (by decide)]
    decide

end FlatAsm.Parse
