import FlatAsm.Proofs.Grammar
import FlatAsm.Proofs.ParserSteps
import FlatAsm.Proofs.SymbolicArithmetic

/-!
# Parsing arguments by the grammar

A parser looks at one token at a time and never goes back, so what it reads
is a sequence of tokens that it moves past.  The parsers of expressions and
arguments are described here by these tokens: they succeed only on tokens
that the grammar derives, with the result that they denote, and they succeed
on all of them provided that the token after them does not go on.
-/

namespace FlatAsm

/-! ## Moving past tokens -/

namespace Cursor

/-- Moving past these tokens leads from one place to another. -/
inductive Passes : Cursor → List Token → Cursor → Prop where
  | here {cursor : Cursor} : Passes cursor [] cursor
  | move {cursor middle after : Cursor} {tokens : List Token}
      (moved : Parse.advance cursor = .ok () middle)
      (later : Passes middle tokens after) :
      Passes cursor (cursor.current :: tokens) after

namespace Passes

variable {cursor middle after : Cursor} {token : Token}
  {tokens front back : List Token}

theorem single (moved : Parse.advance cursor = .ok () after) :
    Passes cursor [cursor.current] after :=
  .move moved .here

theorem trans (first : Passes cursor front middle)
    (second : Passes middle back after) :
    Passes cursor (front ++ back) after := by
  induction first with
  | here => exact second
  | move moved _ inductionHypothesis =>
      exact .move moved (inductionHypothesis second)

theorem nil_iff : Passes cursor [] after ↔ after = cursor := by
  constructor
  · rintro ⟨⟩
    rfl
  · rintro rfl
    exact .here

theorem cons_iff :
    Passes cursor (token :: tokens) after ↔
      cursor.current = token ∧
        ∃ middle, Parse.advance cursor = .ok () middle ∧
          Passes middle tokens after := by
  constructor
  · rintro (_ | ⟨moved, later⟩)
    exact ⟨rfl, _, moved, later⟩
  · rintro ⟨rfl, middle, moved, later⟩
    exact .move moved later

theorem append_iff :
    Passes cursor (front ++ back) after ↔
      ∃ middle, Passes cursor front middle ∧
        Passes middle back after := by
  constructor
  · intro whole
    induction front generalizing cursor with
    | nil => exact ⟨cursor, .here, whole⟩
    | cons token front inductionHypothesis =>
        rcases cons_iff.1 whole with ⟨rfl, next, moved, later⟩
        rcases inductionHypothesis later with ⟨middle, first, second⟩
        exact ⟨middle, .move moved first, second⟩
  · rintro ⟨middle, first, second⟩
    exact first.trans second

end Passes

end Cursor

namespace Parse

open Cursor (Passes)
open Grammar

variable {constants : Table Int64} {cursor after : Cursor}

theorem isMark_iff {token : Token} {mark : Mark} :
    token.isMark mark = true ↔ token.kind = .punctuation mark := by
  simp [Token.isMark]

theorem expect_ok_iff {mark : Mark} :
    expect mark cursor = .ok () after ↔
      cursor.current.kind = .punctuation mark ∧
        advance cursor = .ok () after := by
  rw [expect, current_bind]
  by_cases marked : cursor.current.isMark mark = true
  · simp [marked, isMark_iff.1 marked]
  · have different : cursor.current.kind ≠ .punctuation mark :=
      fun same => marked (isMark_iff.2 same)
    simp [marked, different, unexpected]

/-! ## Expressions -/

theorem reduced_of_isTerm {tokens : List Token} {value : SymInt}
    (term : IsTerm constants tokens value) : value.Reduced := by
  cases term with
  | integer => exact SymInt.reduced_constant _
  | constant => exact SymInt.reduced_constant _
  | label => exact SymInt.reduced_symbol _
  | negated => exact SymInt.reduced_combine _ _ _

theorem signed_not {value : SymInt} (reduced : value.Reduced)
    (negative : Bool) :
    signed (!negative) value = signed negative value.neg := by
  cases negative with
  | false => rfl
  | true => exact (SymInt.neg_neg reduced).symm

theorem isTerm_of_partValue? {token : Token} {value : SymInt}
    (found : partValue? constants token = some value) :
    IsTerm constants [token] value := by
  rw [partValue?] at found
  cases kind : token.kind <;> rw [kind] at found
  case integer number =>
    cases found
    exact .integer kind
  case identifier =>
    cases found
    rw [nameValue]
    split
    · next known => exact .constant kind known
    · next unknown => exact .label kind unknown
  all_goals cases found

theorem moveWith_ok_iff {value result : SymInt} :
    moveWith value cursor = .ok result after ↔
      advance cursor = .ok () after ∧ result = value := by
  rw [moveWith, bind_ok_iff]
  constructor
  · rintro ⟨_, middle, moved, ⟨⟩⟩
    exact ⟨moved, rfl⟩
  · rintro ⟨moved, rfl⟩
    exact ⟨(), after, moved, rfl⟩

theorem signedPart_sound {negative : Bool} {result : SymInt}
    (parsed : signedPart constants negative cursor = .ok result after) :
    ∃ tokens value, Passes cursor tokens after ∧
      IsTerm constants tokens value ∧ result = signed negative value := by
  fun_induction signedPart constants negative cursor with
  | case1 negative cursor value found =>
      rcases moveWith_ok_iff.1 parsed with ⟨moved, rfl⟩
      exact ⟨_, value, .single moved, isTerm_of_partValue? found, rfl⟩
  | case2 => cases parsed
  | case3 negative cursor absent minus _ middle moved
      inductionHypothesis =>
      rcases inductionHypothesis parsed with
        ⟨tokens, value, passed, term, rfl⟩
      refine ⟨_, value.neg, .move moved passed,
        .negated (isMark_iff.1 minus) term, ?_⟩
      exact signed_not (reduced_of_isTerm term) negative
  | case4 => cases parsed

theorem signedPart_single {token : Token} {value : SymInt}
    (found : partValue? constants token = some value)
    (passed : Passes cursor [token] after) (negative : Bool) :
    signedPart constants negative cursor =
      .ok (signed negative value) after := by
  rcases Passes.cons_iff.1 passed with ⟨rfl, middle, moved, done⟩
  cases Passes.nil_iff.1 done
  rw [signedPart_eq, current_bind, found]
  exact moveWith_ok_iff.2 ⟨moved, rfl⟩

theorem signedPart_complete {tokens : List Token} {value : SymInt}
    (term : IsTerm constants tokens value)
    (passed : Passes cursor tokens after) (negative : Bool) :
    signedPart constants negative cursor =
      .ok (signed negative value) after := by
  induction term generalizing cursor negative with
  | integer kind =>
      exact signedPart_single (by rw [partValue?, kind]) passed negative
  | constant kind known =>
      refine signedPart_single ?_ passed negative
      simp [partValue?, kind, nameValue, known]
  | label kind unknown =>
      refine signedPart_single ?_ passed negative
      simp [partValue?, kind, nameValue, unknown]
  | negated sign inner inductionHypothesis =>
      rcases Passes.cons_iff.1 passed with ⟨rfl, middle, moved, later⟩
      have absent : partValue? constants cursor.current = none := by
        rw [partValue?, sign]
      rw [signedPart_eq, current_bind, absent]
      dsimp only
      rw [if_pos (isMark_iff.2 sign), bind_of_ok moved,
        inductionHypothesis later,
        signed_not (reduced_of_isTerm inner)]

/-- Further parts make a longer expression of the one before them. -/
theorem furtherParts_sound {value result : SymInt} {before : List Token}
    (earlier : IsExpression constants before value)
    (parsed : furtherParts constants value cursor = .ok result after) :
    ∃ tokens, Passes cursor tokens after ∧
      IsExpression constants (before ++ tokens) result := by
  fun_induction furtherParts constants value cursor generalizing before with
  | case1 value cursor ended =>
      cases parsed
      exact ⟨[], .here, by simpa using earlier⟩
  | case2 => cases parsed
  | case3 => cases parsed
  | case4 value cursor join sign _ start moved part middle found
      inductionHypothesis =>
      rcases signedPart_sound found with ⟨tokens, _, passed, term, rfl⟩
      have longer : IsExpression constants
          (before ++ cursor.current :: tokens)
          (join value (signed false part)) := by
        unfold joinPart? at sign
        split at sign <;> cases sign
        · next kind => exact .sum earlier kind term
        · next kind => exact .difference earlier kind term
      rcases inductionHypothesis longer parsed with ⟨others, later, whole⟩
      refine ⟨cursor.current :: tokens ++ others,
        .move moved (passed.trans later), ?_⟩
      simpa using whole

theorem expression_sound {result : SymInt}
    (parsed : expression constants cursor = .ok result after) :
    ∃ tokens, Passes cursor tokens after ∧
      IsExpression constants tokens result := by
  rcases bind_ok_iff.1 parsed with ⟨first, middle, found, rest⟩
  rcases signedPart_sound found with ⟨tokens, _, passed, term, rfl⟩
  rcases furtherParts_sound (.term term) rest with
    ⟨others, later, whole⟩
  exact ⟨tokens ++ others, passed.trans later, whole⟩

theorem furtherParts_of_joinPart? {value part : SymInt}
    {join : SymInt → SymInt → SymInt} {sign : Token}
    {tokens : List Token} (found : joinPart? sign = some join)
    (term : IsTerm constants tokens part)
    (passed : Passes cursor (sign :: tokens) after) :
    furtherParts constants value cursor =
      furtherParts constants (join value part) after := by
  rcases Passes.cons_iff.1 passed with ⟨rfl, middle, moved, later⟩
  rw [furtherParts_eq, current_bind, found]
  dsimp only
  rw [bind_of_ok moved, bind_of_ok (signedPart_complete term later false)]
  rfl

/-- After an expression its parser looks for further parts. -/
theorem expression_eq_furtherParts {tokens : List Token} {value : SymInt}
    (derived : IsExpression constants tokens value)
    (passed : Passes cursor tokens after) :
    expression constants cursor = furtherParts constants value after := by
  induction derived generalizing after with
  | term only =>
      rw [expression, bind_of_ok (signedPart_complete only passed false)]
      rfl
  | sum _ sign last inductionHypothesis =>
      rcases Passes.append_iff.1 passed with ⟨middle, first, second⟩
      rw [inductionHypothesis first]
      exact furtherParts_of_joinPart? (by rw [joinPart?, sign]) last second
  | difference _ sign last inductionHypothesis =>
      rcases Passes.append_iff.1 passed with ⟨middle, first, second⟩
      rw [inductionHypothesis first]
      exact furtherParts_of_joinPart? (by rw [joinPart?, sign]) last second

theorem expression_complete {tokens : List Token} {value : SymInt}
    (derived : IsExpression constants tokens value)
    (passed : Passes cursor tokens after)
    (ends : joinPart? after.current = none) :
    expression constants cursor = .ok value after := by
  rw [expression_eq_furtherParts derived passed, furtherParts_eq,
    current_bind, ends]
  rfl

/-! ## Arguments -/

/-- A token with which an expression can begin. -/
def StartsExpression (token : Token) : Prop :=
  (∃ number, token.kind = .integer number) ∨ token.kind = .identifier ∨
    token.kind = .punctuation .minus

theorem startsExpression_of_isTerm {tokens : List Token} {value : SymInt}
    (term : IsTerm constants tokens value) :
    ∃ first rest, tokens = first :: rest ∧ StartsExpression first := by
  cases term with
  | integer kind => exact ⟨_, _, rfl, .inl ⟨_, kind⟩⟩
  | constant kind => exact ⟨_, _, rfl, .inr (.inl kind)⟩
  | label kind => exact ⟨_, _, rfl, .inr (.inl kind)⟩
  | negated sign => exact ⟨_, _, rfl, .inr (.inr sign)⟩

theorem startsExpression_of_isExpression {tokens : List Token}
    {value : SymInt} (derived : IsExpression constants tokens value) :
    ∃ first rest, tokens = first :: rest ∧ StartsExpression first := by
  induction derived with
  | term only => exact startsExpression_of_isTerm only
  | sum _ _ _ inductionHypothesis =>
      rcases inductionHypothesis with ⟨first, rest, rfl, starts⟩
      exact ⟨first, _, rfl, starts⟩
  | difference _ _ _ inductionHypothesis =>
      rcases inductionHypothesis with ⟨first, rest, rfl, starts⟩
      exact ⟨first, _, rfl, starts⟩

theorem startsExpression_of_passes {tokens : List Token} {value : SymInt}
    (derived : IsExpression constants tokens value)
    (passed : Passes cursor tokens after) :
    StartsExpression cursor.current := by
  rcases startsExpression_of_isExpression derived with
    ⟨first, rest, rfl, starts⟩
  rcases Passes.cons_iff.1 passed with ⟨rfl, _⟩
  exact starts

/-- An address in which an expression comes first, after its bracket. -/
def displacedAddress (constants : Table Int64) : Parse Operand := do
  let value ← expression constants
  expect .colon
  match (← current).kind with
  | .register pointer =>
      advance
      expect .closeBracket
      return .indirectDisplacement pointer value
  | _ => unexpected

theorem addressInside_of_other
    (other : ∀ pointer, cursor.current.kind ≠ .register pointer) :
    addressInside constants cursor = displacedAddress constants cursor := by
  rw [addressInside, current_bind]
  cases kind : cursor.current.kind
  case register pointer => exact absurd kind (other pointer)
  all_goals rfl

theorem displacedAddress_sound {operand : Operand}
    (parsed : displacedAddress constants cursor = .ok operand after) :
    ∃ colon register closing pointer tokens value,
      Passes cursor (tokens ++ [colon, register, closing]) after ∧
        IsExpression constants tokens value ∧
        colon.kind = .punctuation .colon ∧
        register.kind = .register pointer ∧
        closing.kind = .punctuation .closeBracket ∧
        operand = .indirectDisplacement pointer value := by
  rcases bind_ok_iff.1 parsed with ⟨value, second, found, rest⟩
  rcases bind_ok_iff.1 rest with ⟨_, third, divided, rest⟩
  rcases expect_ok_iff.1 divided with ⟨colon, divided⟩
  rcases expression_sound found with ⟨tokens, passed, derived⟩
  rw [current_bind] at rest
  cases named : third.current.kind <;> rw [named] at rest
  case register pointer =>
    rcases bind_ok_iff.1 rest with ⟨_, fourth, moved, rest⟩
    rcases bind_ok_iff.1 rest with ⟨_, _, closed, ⟨⟩⟩
    rcases expect_ok_iff.1 closed with ⟨closes, closed⟩
    exact ⟨_, _, _, pointer, tokens, value,
      passed.trans (.move divided (.move moved (.single closed))),
      derived, colon, named, closes, rfl⟩
  all_goals cases rest

theorem address_sound {operand : Operand}
    (opens : cursor.current.kind = .punctuation .openBracket)
    (parsed : address constants cursor = .ok operand after) :
    ∃ tokens, Passes cursor tokens after ∧
      IsAddress constants tokens operand := by
  rcases bind_ok_iff.1 parsed with ⟨_, inner, opened, inside⟩
  by_cases registered : ∃ pointer, inner.current.kind = .register pointer
  · rcases registered with ⟨pointer, named⟩
    rw [addressInside, current_bind, named] at inside
    rcases bind_ok_iff.1 inside with ⟨_, second, moved, rest⟩
    rw [current_bind] at rest
    split at rest
    · next closes =>
      rcases bind_ok_iff.1 rest with ⟨_, _, closed, ⟨⟩⟩
      exact ⟨_, .move opened (.move moved (.single closed)),
        .pointer opens named (isMark_iff.1 closes)⟩
    · rcases bind_ok_iff.1 rest with ⟨_, third, divided, rest⟩
      rcases bind_ok_iff.1 rest with ⟨value, fourth, found, rest⟩
      rcases bind_ok_iff.1 rest with ⟨_, _, closed, ⟨⟩⟩
      rcases expect_ok_iff.1 divided with ⟨colon, divided⟩
      rcases expect_ok_iff.1 closed with ⟨closes, closed⟩
      rcases expression_sound found with ⟨tokens, passed, derived⟩
      exact ⟨_, .move opened (.move moved (.move divided
          (passed.trans (.single closed)))),
        .registerFirst opens named colon derived closes⟩
  · rw [addressInside_of_other (not_exists.1 registered)] at inside
    rcases displacedAddress_sound inside with
      ⟨_, _, _, pointer, tokens, value, passed, derived, colon, named,
        closes, rfl⟩
    exact ⟨_, .move opened passed,
      .registerLast opens derived colon named closes⟩

theorem joinPart?_of_kind {token : Token} {mark : Mark}
    (kind : token.kind = .punctuation mark) (notPlus : mark ≠ .plus)
    (notMinus : mark ≠ .minus) : joinPart? token = none := by
  rw [joinPart?, kind]
  cases mark <;> trivial

theorem address_complete {tokens : List Token} {operand : Operand}
    (derived : IsAddress constants tokens operand)
    (passed : Passes cursor tokens after) :
    address constants cursor = .ok operand after := by
  cases derived with
  | @pointer opening register closing pointer opens named closes =>
      rcases Passes.cons_iff.1 passed with ⟨rfl, inner, opened, passed⟩
      rcases Passes.cons_iff.1 passed with ⟨rfl, second, moved, passed⟩
      rcases Passes.cons_iff.1 passed with ⟨rfl, third, closed, passed⟩
      cases Passes.nil_iff.1 passed
      rw [address, bind_of_ok opened, addressInside, current_bind, named]
      dsimp only
      rw [bind_of_ok moved, current_bind, if_pos (isMark_iff.2 closes),
        bind_of_ok closed]
      rfl
  | @registerFirst opening register colon closing pointer tokens value
      opens named divides displaced closes =>
      rcases Passes.cons_iff.1 passed with ⟨rfl, inner, opened, passed⟩
      rcases Passes.cons_iff.1 passed with ⟨rfl, second, moved, passed⟩
      rcases Passes.cons_iff.1 passed with ⟨rfl, third, divided, passed⟩
      rcases Passes.append_iff.1 passed with ⟨fourth, inside, passed⟩
      rcases Passes.cons_iff.1 passed with ⟨rfl, fifth, closed, passed⟩
      cases Passes.nil_iff.1 passed
      have open' : ¬ second.current.isMark .closeBracket = true := by
        simp [Token.isMark, divides]
      have found := expression_complete displaced inside
        (joinPart?_of_kind closes (by decide) (by decide))
      rw [address, bind_of_ok opened, addressInside, current_bind, named]
      dsimp only
      rw [bind_of_ok moved, current_bind, if_neg open',
        bind_of_ok (expect_ok_iff.2 ⟨divides, divided⟩),
        bind_of_ok found,
        bind_of_ok (expect_ok_iff.2 ⟨closes, closed⟩)]
      rfl
  | @registerLast opening register colon closing pointer tokens value
      opens displaced divides named closes =>
      rcases Passes.cons_iff.1 passed with ⟨rfl, inner, opened, passed⟩
      rcases Passes.append_iff.1 passed with ⟨second, inside, passed⟩
      rcases Passes.cons_iff.1 passed with ⟨rfl, third, divided, passed⟩
      rcases Passes.cons_iff.1 passed with ⟨rfl, fourth, moved, passed⟩
      rcases Passes.cons_iff.1 passed with ⟨rfl, fifth, closed, passed⟩
      cases Passes.nil_iff.1 passed
      have other : ∀ pointer, inner.current.kind ≠ .register pointer := by
        have starts := startsExpression_of_passes displaced inside
        rcases starts with ⟨number, kind⟩ | kind | kind <;> simp [kind]
      have found := expression_complete displaced inside
        (joinPart?_of_kind divides (by decide) (by decide))
      rw [address, bind_of_ok opened, addressInside_of_other other,
        displacedAddress, bind_of_ok found,
        bind_of_ok (expect_ok_iff.2 ⟨divides, divided⟩), current_bind,
        named]
      dsimp only
      rw [bind_of_ok moved, bind_of_ok (expect_ok_iff.2 ⟨closes, closed⟩)]
      rfl

/-- An argument that is neither a string, a register nor an address. -/
theorem argument_of_starts
    (starts : StartsExpression cursor.current) :
    argument constants cursor =
      (expression constants >>= fun value =>
        return .operand (.displacement value)) cursor := by
  rw [argument, current_bind]
  rcases starts with ⟨number, kind⟩ | kind | kind <;> rw [kind]

theorem argument_sound {result : Argument}
    (parsed : argument constants cursor = .ok result after) :
    ∃ tokens, Passes cursor tokens after ∧
      IsArgument constants tokens result := by
  have summed : ∀ {result : Argument},
      (expression constants >>= fun value =>
        return .operand (.displacement value)) cursor =
          .ok result after →
        ∃ tokens, Passes cursor tokens after ∧
          IsArgument constants tokens result := by
    intro result parsed
    rcases bind_ok_iff.1 parsed with ⟨value, _, found, ⟨⟩⟩
    rcases expression_sound found with ⟨tokens, passed, derived⟩
    exact ⟨tokens, passed, .expression derived⟩
  rw [argument, current_bind] at parsed
  cases kind : cursor.current.kind <;> rw [kind] at parsed
  case string =>
    rcases bind_ok_iff.1 parsed with ⟨_, _, moved, ⟨⟩⟩
    exact ⟨_, .single moved, .string kind⟩
  case register register =>
    rcases bind_ok_iff.1 parsed with ⟨_, _, moved, ⟨⟩⟩
    exact ⟨_, .single moved, .register kind⟩
  case punctuation mark =>
    cases mark
    case openBracket =>
      rcases bind_ok_iff.1 parsed with ⟨operand, _, found, ⟨⟩⟩
      rcases address_sound kind found with ⟨tokens, passed, derived⟩
      exact ⟨tokens, passed, .address derived⟩
    all_goals exact summed parsed
  all_goals exact summed parsed

theorem argument_complete {tokens : List Token} {given : Argument}
    (derived : IsArgument constants tokens given)
    (passed : Passes cursor tokens after)
    (ends : joinPart? after.current = none) :
    argument constants cursor = .ok given after := by
  cases derived with
  | string kind =>
      rcases Passes.cons_iff.1 passed with ⟨rfl, middle, moved, done⟩
      cases Passes.nil_iff.1 done
      rw [argument, current_bind, kind]
      dsimp only
      rw [bind_of_ok moved]
      rfl
  | register kind =>
      rcases Passes.cons_iff.1 passed with ⟨rfl, middle, moved, done⟩
      cases Passes.nil_iff.1 done
      rw [argument, current_bind, kind]
      dsimp only
      rw [bind_of_ok moved]
      rfl
  | address bracketed =>
      have found := address_complete bracketed passed
      have opens : cursor.current.kind = .punctuation .openBracket := by
        cases bracketed with
        | pointer opens | registerFirst opens | registerLast opens =>
            rcases Passes.cons_iff.1 passed with ⟨rfl, _⟩
            exact opens
      rw [argument, current_bind, opens]
      dsimp only
      rw [bind_of_ok found]
      rfl
  | expression summed =>
      rw [argument_of_starts (startsExpression_of_passes summed passed),
        bind_of_ok (expression_complete summed passed ends)]
      rfl

theorem endsStatement_iff {token : Token} :
    token.endsStatement = true ↔
      token.kind = .newline ∨ token.kind = .endOfText := by
  simp [Token.endsStatement]

theorem joinPart?_of_endsStatement {token : Token}
    (ends : token.endsStatement = true) : joinPart? token = none := by
  rcases endsStatement_iff.1 ends with kind | kind <;>
    rw [joinPart?, kind]

theorem not_isMark_of_endsStatement {token : Token}
    (ends : token.endsStatement = true) (mark : Mark) :
    ¬ token.isMark mark = true := by
  rcases endsStatement_iff.1 ends with kind | kind <;>
    simp [Token.isMark, kind]

theorem argumentsOnto_sound {reversed result : List Argument}
    (parsed : argumentsOnto constants reversed cursor =
      .ok result after) :
    ∃ tokens arguments, Passes cursor tokens after ∧
      AreArguments constants tokens arguments ∧
      result = reversed.reverse ++ arguments := by
  fun_induction argumentsOnto constants reversed cursor with
  | case1 => cases parsed
  | case2 => cases parsed
  | case3 reversed cursor first middle found comma _ second moved
      inductionHypothesis =>
      rcases argument_sound found with ⟨front, passed, derived⟩
      rcases inductionHypothesis parsed with
        ⟨back, arguments, later, others, rfl⟩
      refine ⟨front ++ middle.current :: back, first :: arguments,
        passed.trans (.move moved later),
        .further derived (isMark_iff.1 comma) others, ?_⟩
      simp
  | case4 reversed cursor first middle found =>
      cases parsed
      rcases argument_sound found with ⟨front, passed, derived⟩
      exact ⟨front, [first], passed, .last derived, by simp⟩

theorem argumentsOnto_complete {tokens : List Token}
    {arguments : List Argument}
    (derived : AreArguments constants tokens arguments)
    (passed : Passes cursor tokens after)
    (ends : after.current.endsStatement = true)
    (reversed : List Argument) :
    argumentsOnto constants reversed cursor =
      .ok (reversed.reverse ++ arguments) after := by
  induction derived generalizing cursor reversed with
  | @last tokens argument only =>
      rw [argumentsOnto_eq, bind_of_ok (argument_complete only passed
          (joinPart?_of_endsStatement ends)), current_bind,
        if_neg (not_isMark_of_endsStatement ends .comma),
        List.reverse_cons]
      rfl
  | @further front back comma argument arguments first divides others
      inductionHypothesis =>
      rcases Passes.append_iff.1 passed with ⟨middle, earlier, passed⟩
      rcases Passes.cons_iff.1 passed with ⟨rfl, next, moved, later⟩
      have noJoin := joinPart?_of_kind divides (by decide) (by decide)
      rw [argumentsOnto_eq,
        bind_of_ok (argument_complete first earlier noJoin),
        current_bind, if_pos (isMark_iff.2 divides), bind_of_ok moved,
        inductionHypothesis later, List.reverse_cons,
        List.append_assoc]
      rfl

theorem arguments_sound {result : List Argument}
    (parsed : arguments constants cursor = .ok result after) :
    ∃ tokens, Passes cursor tokens after ∧
      AreOptionalArguments constants tokens result := by
  rw [arguments, current_bind] at parsed
  split at parsed
  · cases parsed
    exact ⟨[], .here, .none⟩
  · rcases argumentsOnto_sound parsed with
      ⟨tokens, arguments, passed, derived, rfl⟩
    exact ⟨tokens, passed, .some derived⟩

theorem exists_cons_of_areArguments {tokens : List Token}
    {arguments : List Argument}
    (derived : AreArguments constants tokens arguments) :
    ∃ first rest, tokens = first :: rest := by
  have single : ∀ {tokens : List Token} {argument : Argument},
      IsArgument constants tokens argument →
        ∃ first rest, tokens = first :: rest := by
    intro tokens argument derived
    cases derived with
    | string => exact ⟨_, _, rfl⟩
    | register => exact ⟨_, _, rfl⟩
    | address bracketed => cases bracketed <;> exact ⟨_, _, rfl⟩
    | expression summed =>
        rcases startsExpression_of_isExpression summed with
          ⟨first, rest, same, -⟩
        exact ⟨first, rest, same⟩
  cases derived with
  | last only => exact single only
  | further first =>
      rcases single first with ⟨head, rest, rfl⟩
      exact ⟨head, _, rfl⟩

theorem arguments_complete {tokens : List Token}
    {listed : List Argument}
    (derived : AreOptionalArguments constants tokens listed)
    (passed : Passes cursor tokens after)
    (ends : after.current.endsStatement = true) :
    arguments constants cursor = .ok listed after := by
  rw [arguments, current_bind]
  cases derived with
  | none =>
      cases Passes.nil_iff.1 passed
      rw [if_pos ends]
      rfl
  | some given =>
      have inside : ¬ cursor.current.endsStatement = true := by
        rcases exists_cons_of_areArguments given with ⟨first, rest, rfl⟩
        rcases Passes.cons_iff.1 passed with ⟨rfl, _⟩
        have here := given.inside cursor.current List.mem_cons_self
        rw [Inside] at here
        simp [here]
      rw [if_neg inside, argumentsOnto_complete given passed ends []]
      rfl

end Parse

end FlatAsm
