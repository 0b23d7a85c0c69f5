import FlatAsm.Proofs.ArgumentGrammar
import FlatAsm.Proofs.ParserRuns

/-!
# Parsing statements by the grammar

Arguments are accepted for a mnemonic exactly if they suit it, and a line is
parsed into an item exactly if it is a statement.

The main theorem says that asking for the next statement gives an item
exactly if the tokens up to the next line end are a statement, and that the
item is the one that these tokens denote.
-/

namespace FlatAsm

/-! ## Operations -/

namespace Operation

open Grammar

theorem items_eq_ok_iff {argument : Argument} {items : List SymInt} :
    argument.items = .ok items ↔ IsData argument items := by
  constructor
  · intro found
    cases argument with
    | string bytes =>
        cases found
        exact .string
    | operand content =>
        cases content <;> cases found
        exact .value
  · rintro (_ | _) <;> rfl

theorem forall₂_items_iff {arguments : List Argument}
    {items : List SymInt} :
    (arguments ≠ [] ∧ ∃ parts,
      List.Forall₂ (fun argument part => argument.items = .ok part)
        arguments parts ∧ items = parts.flatten) ↔
      AreData arguments items := by
  constructor
  · rintro ⟨nonempty, parts, split, rfl⟩
    induction split with
    | nil => exact absurd rfl nonempty
    | @cons argument part rest others first later inductionHypothesis =>
        have data := items_eq_ok_iff.1 first
        cases rest with
        | nil =>
            cases later
            simpa using AreData.last data
        | cons =>
            exact .further data (inductionHypothesis (by simp))
  · intro data
    induction data with
    | last only =>
        refine ⟨by simp, [_], .cons (items_eq_ok_iff.2 only) .nil, ?_⟩
        simp
    | further first _ inductionHypothesis =>
        rcases inductionHypothesis with ⟨-, parts, split, rfl⟩
        exact ⟨by simp, _ :: parts,
          .cons (items_eq_ok_iff.2 first) split, rfl⟩

theorem dataItems_eq_ok_iff {arguments : List Argument}
    {items : List SymInt} :
    dataItems arguments = .ok items ↔ AreData arguments items := by
  rw [← forall₂_items_iff]
  cases arguments with
  | nil => simp [dataItems]
  | cons first rest =>
      have mapped := @mapM_eq_ok_iff _ _ _ Argument.items (first :: rest)
      rw [dataItems, bind_eq_ok_iff]
      · simp only [mapped, ne_eq, reduceCtorEq, not_false_eq_true,
          true_and, pure, Except.pure, Except.ok.injEq, eq_comm]
      · simp

/-- The limits, checked in words, as limits of the words' values. -/
theorem exceeds_iff_not_within {count : Int64} {size : Nat} :
    (Int64.ofNat timesLimit < count ∨
        Int64.ofNat timesLimit < count * Int64.ofNat size) ↔
      ¬(count.toInt ≤ timesLimit ∧
        (count * Int64.ofNat size).toInt ≤ timesLimit) := by
  have limit : (Int64.ofNat timesLimit).toInt = timesLimit := by decide
  rw [Int64.lt_iff_toInt_lt, Int64.lt_iff_toInt_lt, limit]
  omega

/-- Data is repeated if the count is constant and within limits. -/
theorem timesItems_eq_ok_iff {count : SymInt}
    {items result : List SymInt} :
    timesItems count items = .ok result ↔
      IsCount count items ∧
        result =
          (List.replicate count.base.toInt.toNat items).flatten := by
  have one : (1 : Int64).toInt = 1 := by decide
  rw [timesItems]
  split
  · next symbolic =>
    constructor
    · rintro ⟨⟩
    · rintro ⟨isCount, -⟩
      simp [isCount.constant] at symbolic
  · next constant =>
    split
    · next below =>
      rw [Int64.lt_iff_toInt_lt, one] at below
      constructor
      · rintro ⟨⟩
      · rintro ⟨isCount, -⟩
        have positive := isCount.positive
        omega
    · next positive =>
      rw [Int64.lt_iff_toInt_lt, one] at positive
      split
      · next above =>
        rw [exceeds_iff_not_within] at above
        constructor
        · rintro ⟨⟩
        · rintro ⟨isCount, -⟩
          exact absurd ⟨isCount.limited, isCount.total⟩ above
      · next within =>
        rw [exceeds_iff_not_within, not_not] at within
        rw [repeated_eq_flatten, Except.ok.injEq]
        have isCount : IsCount count items :=
          ⟨by simpa using constant, by omega, within.1, within.2⟩
        simp [isCount, eq_comm]

theorem commonWidth_single (default : Width) (operand : Operand) :
    commonWidth default [operand] =
      .ok ((operand.register?.map Register.width).getD default) := by
  cases named : operand.register? <;> simp [commonWidth, named]

theorem hasWidth_iff_of_register? {operand : Operand}
    {register : Register} (named : operand.register? = some register)
    (width : Width) :
    operand.HasWidth width ↔ register.width = width := by
  simp [Operand.HasWidth, named]

theorem hasWidth_of_register? {operand : Operand}
    (unnamed : operand.register? = none) (width : Width) :
    operand.HasWidth width := by
  simp [Operand.HasWidth, unnamed]

theorem commonWidth_pair_iff {default width : Width} {right : Register}
    {left : Operand} {operands : List Operand}
    (pair : operands = [left, .register right] ∨
      operands = [.register right, left]) :
    commonWidth default operands = .ok width ↔
      left.HasWidth right.width ∧ width = right.width := by
  have direct : (Operand.register right).register? = some right := rfl
  cases named : left.register? with
  | none =>
      have free := hasWidth_of_register? named right.width
      rcases pair with rfl | rfl <;>
        simp [commonWidth, named, direct, free, @eq_comm _ width]
  | some register =>
      rw [hasWidth_iff_of_register? named, commonWidth]
      rcases pair with rfl | rfl <;>
        simp only [List.filterMap_cons, List.filterMap_nil, named, direct,
          List.all_cons, List.all_nil, Bool.and_true, decide_eq_true_eq]
      · grind
      · grind

theorem mapM_asOperand_iff {arguments : List Argument}
    {operands : List Operand} :
    arguments.mapM Argument.asOperand = .ok operands ↔
      arguments = operands.map Argument.operand := by
  rw [mapM_eq_ok_iff]
  constructor
  · intro converted
    induction converted with
    | nil => rfl
    | @cons argument operand _ _ first _ inductionHypothesis =>
        cases argument <;> cases first
        simp [inductionHypothesis]
  · rintro rfl
    induction operands with
    | nil => exact .nil
    | cons operand rest inductionHypothesis =>
        exact .cons rfl inductionHypothesis

theorem suits_of_ofOperands {default width : Width} {mnemonic : Mnemonic}
    {operands : List Operand} {operation : Operation}
    (common : commonWidth default operands = .ok width)
    (found : ofOperands mnemonic width operands = .ok operation) :
    Suits default mnemonic (operands.map .operand) operation := by
  cases category : mnemonic.category <;>
    rw [ofOperands, category] at found <;> dsimp only at found
  case step =>
    split at found <;> cases found
    cases (commonWidth_single default _).symm.trans common
    exact .step category
  case jump =>
    split at found <;> cases found
    cases (commonWidth_single default _).symm.trans common
    exact .jump category
  case reversible =>
    split at found <;> cases found
    · rcases (commonWidth_pair_iff (.inl rfl)).1 common with
        ⟨sameWidth, rfl⟩
      exact .registerLast category sameWidth
    · next notDirect =>
      rcases (commonWidth_pair_iff (.inr rfl)).1 common with
        ⟨sameWidth, rfl⟩
      exact .registerFirst category notDirect sameWidth
  case unary =>
    split at found <;> cases found
    next operand =>
    rw [commonWidth_single] at common
    cases named : operand.register? with
    | none =>
        rw [named] at common
        cases common
        exact .unaryUnnamed category named
    | some register =>
        rw [named] at common
        cases common
        exact .unaryNamed category named
  case nullary =>
    split at found <;> cases found
    cases common
    exact .nullary category
  case data => cases found
  case times => cases found

theorem ofOperands_of_suits {default : Width} {mnemonic : Mnemonic}
    {arguments : List Argument} {operation : Operation}
    (suits : Suits default mnemonic arguments operation)
    (notData : mnemonic.category ≠ .data) :
    ∃ operands width, arguments = operands.map .operand ∧
      commonWidth default operands = .ok width ∧
      ofOperands mnemonic width operands = .ok operation := by
  cases suits with
  | data category => exact absurd category notData
  | @step register category =>
      refine ⟨[.register register], register.width, rfl,
        commonWidth_single default _, ?_⟩
      rw [ofOperands, category]
  | @jump target category =>
      refine ⟨[.displacement target], default, rfl,
        commonWidth_single default _, ?_⟩
      rw [ofOperands, category]
  | @registerLast left right category sameWidth =>
      refine ⟨[left, .register right], right.width, rfl,
        (commonWidth_pair_iff (.inl rfl)).2 ⟨sameWidth, rfl⟩, ?_⟩
      rw [ofOperands, category]
  | @registerFirst left right category notDirect sameWidth =>
      refine ⟨[.register right, left], right.width, rfl,
        (commonWidth_pair_iff (.inr rfl)).2 ⟨sameWidth, rfl⟩, ?_⟩
      rw [ofOperands, category]
      cases left with
      | register direct => exact absurd rfl (notDirect direct)
      | displacement => rfl
      | indirect => rfl
      | indirectDisplacement => rfl
  | @unaryNamed operand register category named =>
      refine ⟨[operand], register.width, rfl, ?_, ?_⟩
      · rw [commonWidth_single, named]
        rfl
      · rw [ofOperands, category]
  | @unaryUnnamed operand category unnamed =>
      refine ⟨[operand], default, rfl, ?_, ?_⟩
      · rw [commonWidth_single, unnamed]
        rfl
      · rw [ofOperands, category]
  | nullary category =>
      refine ⟨[], default, rfl, rfl, ?_⟩
      rw [ofOperands, category]

theorem ofArguments_eq_operands {default : Width} {mnemonic : Mnemonic}
    (notData : mnemonic.category ≠ .data)
    (once : mnemonic.category ≠ .times) (count : SymInt)
    (arguments : List Argument) :
    ofArguments default mnemonic count arguments =
      (do
        let operands ← arguments.mapM Argument.asOperand
        let width ← commonWidth default operands
        ofOperands mnemonic width operands) := by
  rw [ofArguments]
  cases category : mnemonic.category
  case data => exact absurd category notData
  case times => exact absurd category once
  all_goals rfl

/-- Arguments are accepted for a mnemonic exactly if they suit it. -/
theorem ofArguments_eq_ok_iff {default : Width} {mnemonic : Mnemonic}
    {count : SymInt} {arguments : List Argument} {operation : Operation}
    (once : mnemonic.category ≠ .times) :
    ofArguments default mnemonic count arguments = .ok operation ↔
      Suits default mnemonic arguments operation := by
  by_cases category : mnemonic.category = .data
  · rw [ofArguments, category]
    constructor
    · intro made
      rcases bind_eq_ok_iff.1 made with ⟨items, split, ⟨⟩⟩
      exact .data category (dataItems_eq_ok_iff.1 split)
    · intro suits
      cases suits with
      | data _ bytes =>
          exact bind_eq_ok_iff.2 ⟨_, dataItems_eq_ok_iff.2 bytes, rfl⟩
      | step other | jump other | registerLast other
      | registerFirst other | unaryNamed other | unaryUnnamed other
      | nullary other => cases category.symm.trans other
  · rw [ofArguments_eq_operands category once]
    constructor
    · intro made
      rcases bind_eq_ok_iff.1 made with ⟨operands, converted, rest⟩
      rcases bind_eq_ok_iff.1 rest with ⟨width, common, found⟩
      rw [mapM_asOperand_iff.1 converted]
      exact suits_of_ofOperands common found
    · intro suits
      rcases ofOperands_of_suits suits category with
        ⟨operands, width, rfl, common, found⟩
      refine bind_eq_ok_iff.2 ⟨operands, mapM_asOperand_iff.2 rfl, ?_⟩
      exact bind_eq_ok_iff.2 ⟨width, common, found⟩

theorem ofArguments_times_eq_ok_iff {default : Width}
    {mnemonic : Mnemonic} {count : SymInt} {arguments : List Argument}
    {operation : Operation} (category : mnemonic.category = .times) :
    ofArguments default mnemonic count arguments = .ok operation ↔
      ∃ items, AreData arguments items ∧ IsCount count items ∧
        operation = .data
          (List.replicate count.base.toInt.toNat items).flatten := by
  rw [ofArguments, category]
  constructor
  · intro made
    rcases bind_eq_ok_iff.1 made with ⟨items, split, rest⟩
    rcases bind_eq_ok_iff.1 rest with ⟨all, many, ⟨⟩⟩
    rcases timesItems_eq_ok_iff.1 many with ⟨isCount, rfl⟩
    exact ⟨items, dataItems_eq_ok_iff.1 split, isCount, rfl⟩
  · rintro ⟨items, bytes, isCount, rfl⟩
    refine bind_eq_ok_iff.2 ⟨items, dataItems_eq_ok_iff.2 bytes, ?_⟩
    exact bind_eq_ok_iff.2
      ⟨_, timesItems_eq_ok_iff.2 ⟨isCount, rfl⟩, rfl⟩

end Operation

/-! ## Statements -/

namespace Parse

open Cursor (Passes)
open Grammar

variable {width : Width} {constants : Table Int64}
  {cursor after : Cursor}

theorem label_ok_iff {item : Item} :
    label cursor = .ok item after ↔
      ∃ name, Passes cursor [cursor.current, name] after ∧
        name.kind = .identifier ∧
        item = .label cursor.current.line name.text := by
  rw [label, current_bind]
  constructor
  · intro parsed
    rcases bind_ok_iff.1 parsed with ⟨_, middle, moved, rest⟩
    rw [current_bind] at rest
    cases named : middle.current.kind <;> rw [named] at rest
    case identifier =>
      rcases bind_ok_iff.1 rest with ⟨_, _, ended, ⟨⟩⟩
      exact ⟨_, .move moved (.single ended), named, rfl⟩
    all_goals cases rest
  · rintro ⟨name, passed, named, rfl⟩
    rcases Passes.cons_iff.1 passed with ⟨_, middle, moved, passed⟩
    rcases Passes.cons_iff.1 passed with ⟨rfl, last, ended, done⟩
    cases Passes.nil_iff.1 done
    rw [bind_of_ok moved, current_bind, named]
    dsimp only
    rw [bind_of_ok ended]
    rfl

theorem timesCount_of_once {mnemonic : Mnemonic}
    (once : mnemonic.category ≠ .times) :
    timesCount constants mnemonic = pure (.constant 0) := by
  rw [timesCount]
  cases category : mnemonic.category
  case times => exact absurd category once
  all_goals rfl

theorem timesCount_of_times {mnemonic : Mnemonic}
    (category : mnemonic.category = .times) :
    timesCount constants mnemonic =
      (do
        let count ← expression constants
        expect .comma
        return count) := by
  rw [timesCount, category]

theorem liftOperation_ok_iff {line : Int} {mnemonic : Mnemonic}
    {made : Except Cause Operation} {item : Item} :
    liftOperation line mnemonic made cursor = .ok item after ↔
      after = cursor ∧
        ∃ operation, made = .ok operation ∧
          item = .instruction ⟨line, operation⟩ := by
  cases made with
  | error cause =>
      constructor
      · rintro ⟨⟩
      · rintro ⟨-, _, ⟨⟩, -⟩
  | ok operation =>
      constructor
      · rintro ⟨⟩
        exact ⟨rfl, operation, rfl, rfl⟩
      · rintro ⟨rfl, _, ⟨⟩, rfl⟩
        rfl

theorem instruction_sound {mnemonic : Mnemonic} {item : Item}
    (kind : cursor.current.kind = .mnemonic mnemonic)
    (parsed :
      instruction width constants mnemonic cursor = .ok item after) :
    ∃ tokens, Passes cursor tokens after ∧
      IsStatement width constants tokens item := by
  rw [instruction, current_bind] at parsed
  rcases bind_ok_iff.1 parsed with ⟨_, started, moved, parsed⟩
  rcases bind_ok_iff.1 parsed with ⟨count, counted, found, parsed⟩
  rcases bind_ok_iff.1 parsed with ⟨listed, ended, given, lifted⟩
  rcases liftOperation_ok_iff.1 lifted with ⟨rfl, operation, made, rfl⟩
  rcases arguments_sound given with ⟨back, later, derived⟩
  by_cases category : mnemonic.category = .times
  · rw [timesCount_of_times category] at found
    rcases bind_ok_iff.1 found with ⟨_, middle, summed, found⟩
    rcases bind_ok_iff.1 found with ⟨_, _, divided, ⟨⟩⟩
    rcases expect_ok_iff.1 divided with ⟨comma, divided⟩
    rcases expression_sound summed with ⟨front, passed, summed⟩
    rcases (Operation.ofArguments_times_eq_ok_iff category).1 made with
      ⟨items, bytes, isCount, rfl⟩
    exact ⟨_, .move moved (passed.trans (.move divided later)),
      .repetition kind category summed comma derived bytes isCount⟩
  · rw [timesCount_of_once category] at found
    cases found
    exact ⟨_, .move moved later, .instruction kind derived
      ((Operation.ofArguments_eq_ok_iff category).1 made)⟩

theorem instruction_complete {mnemonic : Mnemonic} {tokens : List Token}
    {item : Item} (kind : cursor.current.kind = .mnemonic mnemonic)
    (derived : IsStatement width constants tokens item)
    (passed : Passes cursor tokens after)
    (ends : after.current.endsStatement = true) :
    instruction width constants mnemonic cursor = .ok item after := by
  rw [instruction, current_bind]
  cases derived with
  | label marked =>
      rcases Passes.cons_iff.1 passed with ⟨rfl, _⟩
      cases kind.symm.trans marked
  | instruction kind' listed suits =>
      rcases Passes.cons_iff.1 passed with ⟨rfl, middle, moved, later⟩
      cases kind.symm.trans kind'
      have once : mnemonic.category ≠ .times := by
        cases suits with
        | data category | step category | jump category
        | registerLast category | registerFirst category
        | unaryNamed category | unaryUnnamed category
        | nullary category => simp [category]
      rw [bind_of_ok moved, timesCount_of_once once, pure_bind,
        bind_of_ok (arguments_complete listed later ends)]
      exact liftOperation_ok_iff.2 ⟨rfl, _,
        (Operation.ofArguments_eq_ok_iff once).2 suits, rfl⟩
  | repetition kind' category counted divides listed bytes isCount =>
      rcases Passes.cons_iff.1 passed with ⟨rfl, middle, moved, passed⟩
      rcases Passes.append_iff.1 passed with ⟨second, front, passed⟩
      rcases Passes.cons_iff.1 passed with ⟨rfl, third, divided, later⟩
      cases kind.symm.trans kind'
      have found := expression_complete counted front
        (joinPart?_of_kind divides (by decide) (by decide))
      rw [bind_of_ok moved, timesCount_of_times category, bind_assoc,
        bind_of_ok found, bind_assoc,
        bind_of_ok (expect_ok_iff.2 ⟨divides, divided⟩), pure_bind,
        bind_of_ok (arguments_complete listed later ends)]
      exact liftOperation_ok_iff.2 ⟨rfl, _,
        (Operation.ofArguments_times_eq_ok_iff category).2
          ⟨_, bytes, isCount, rfl⟩, rfl⟩

theorem complete_ok_iff {item : Item} {result : Option Item} :
    complete item cursor = .ok result after ↔
      after = cursor ∧ cursor.current.endsStatement = true ∧
        result = some item := by
  rw [complete, current_bind]
  split
  · next ends =>
    constructor
    · rintro ⟨⟩
      exact ⟨rfl, ends, rfl⟩
    · rintro ⟨rfl, -, rfl⟩
      rfl
  · next inside =>
    constructor
    · rintro ⟨⟩
    · rintro ⟨-, ends, -⟩
      exact absurd ends inside

/-- From a token on, an item is parsed exactly if there is a statement. -/
theorem statementHere_ok_iff {item : Item} :
    statementHere width constants cursor = .ok (some item) after ↔
      ∃ tokens, Passes cursor tokens after ∧
        IsStatement width constants tokens item ∧
        after.current.endsStatement = true := by
  constructor
  · intro parsed
    rw [statementHere] at parsed
    split at parsed
    · cases parsed
    · next marked =>
      rcases bind_ok_iff.1 parsed with ⟨_, middle, found, done⟩
      rcases complete_ok_iff.1 done with ⟨rfl, ends, ⟨⟩⟩
      rcases label_ok_iff.1 found with ⟨name, passed, named, rfl⟩
      exact ⟨_, passed, .label marked named, ends⟩
    · next mnemonic kind =>
      rcases bind_ok_iff.1 parsed with ⟨_, middle, found, done⟩
      rcases complete_ok_iff.1 done with ⟨rfl, ends, ⟨⟩⟩
      rcases instruction_sound kind found with ⟨tokens, passed, derived⟩
      exact ⟨tokens, passed, derived, ends⟩
    · cases parsed
  · rintro ⟨tokens, passed, derived, ends⟩
    have finish : complete item after = .ok (some item) after :=
      complete_ok_iff.2 ⟨rfl, ends, rfl⟩
    have start : ∃ rest, tokens = cursor.current :: rest := by
      cases derived <;> rcases Passes.cons_iff.1 passed with ⟨rfl, _⟩ <;>
        exact ⟨_, rfl⟩
    rcases start with ⟨rest, rfl⟩
    rw [statementHere]
    cases derived with
    | label marked named =>
        have found : label cursor = .ok _ after :=
          label_ok_iff.2 ⟨_, passed, named, rfl⟩
        rw [marked]
        dsimp only
        rw [bind_of_ok found, finish]
    | instruction kind listed suits =>
        have found := instruction_complete kind
          (.instruction kind listed suits) passed ends
        rw [kind]
        dsimp only
        rw [bind_of_ok found, finish]
    | repetition kind category counted divides listed bytes isCount =>
        have found := @instruction_complete width _ _ _ _ _ _ kind
          (.repetition kind category counted divides listed bytes isCount)
          passed ends
        rw [kind]
        dsimp only
        rw [bind_of_ok found, finish]

end Parse

/-! ## The next statement -/

/-- The current token and all that follow. -/
def Cursor.ahead (cursor : Cursor) : List Token :=
  cursor.current :: cursor.upcoming

/-- The tokens that a parser has still to read. -/
def Parser.ahead (parser : Parser) : List Token :=
  if parser.started then parser.cursor.ahead
  else parser.cursor.upcoming

/-- The tokens of a line, after empty lines and up to its end. -/
def nextLine (tokens : List Token) : List Token :=
  (tokens.dropWhile fun token => token.kind = .newline).takeWhile
    fun token => !token.endsStatement

namespace Cursor

variable {cursor after : Cursor}

theorem advance_of_upcoming {token : Token} {rest : List Token}
    (upcoming : cursor.upcoming = token :: rest) :
    Parse.advance cursor = .ok () ⟨token, rest, cursor.fault⟩ := by
  rw [Parse.advance, upcoming]

theorem advance_at_end (upcoming : cursor.upcoming = [])
    (faultless : cursor.fault = none) :
    Parse.advance cursor =
      .ok () ⟨⟨.endOfText, cursor.current.line, []⟩, [], none⟩ := by
  simp [Parse.advance, upcoming, faultless]

/-- Tokens that are moved past up to a line end are those before it. -/
theorem Passes.eq_takeWhile {tokens : List Token}
    (passed : Passes cursor tokens after)
    (inside : ∀ token ∈ tokens, Grammar.Inside token)
    (ends : after.current.endsStatement = true) :
    tokens = cursor.ahead.takeWhile fun token => !token.endsStatement := by
  induction passed with
  | here => simp [ahead, ends]
  | @move cursor middle after tokens moved later inductionHypothesis =>
      have here : cursor.current.endsStatement = false :=
        inside cursor.current List.mem_cons_self
      have rest := inductionHypothesis
        (fun token member => inside token (List.mem_cons_of_mem _ member))
        ends
      rw [ahead, List.takeWhile_cons_of_pos (by simp [here])]
      congr 1
      rw [rest]
      cases upcoming : cursor.upcoming with
      | cons token others =>
          cases (advance_of_upcoming upcoming).symm.trans moved
          rfl
      | nil =>
          cases faultless : cursor.fault with
          | none =>
              cases (advance_at_end upcoming faultless).symm.trans moved
              rfl
          | some fault =>
              rw [Parse.advance, upcoming, faultless] at moved
              cases moved

/-- Without errors, a line end can be reached. -/
theorem exists_passes_takeWhile (faultless : cursor.fault = none) :
    ∃ after, Passes cursor
        (cursor.ahead.takeWhile fun token => !token.endsStatement) after ∧
      after.current.endsStatement = true := by
  rcases cursor with ⟨current, upcoming, fault⟩
  cases faultless
  induction upcoming generalizing current with
  | nil =>
      by_cases ends : current.endsStatement = true
      · exact ⟨_, by simpa [ahead, ends] using Passes.here, ends⟩
      · refine ⟨⟨⟨.endOfText, current.line, []⟩, [], none⟩, ?_, rfl⟩
        have moved : Parse.advance ⟨current, [], none⟩ = .ok () _ :=
          advance_at_end rfl rfl
        simpa [ahead, ends] using Passes.single moved
  | cons token rest inductionHypothesis =>
      by_cases ends : current.endsStatement = true
      · exact ⟨_, by simpa [ahead, ends] using Passes.here, ends⟩
      · rcases inductionHypothesis token with ⟨after, later, stops⟩
        refine ⟨after, ?_, stops⟩
        have moved : Parse.advance ⟨current, token :: rest, none⟩ =
          .ok () ⟨token, rest, none⟩ := rfl
        rw [ahead, List.takeWhile_cons_of_pos (by simp [ends])]
        exact .move moved later

end Cursor

namespace Parse

/-- Without errors, moving past line ends leads to the next line. -/
theorem skipNewlines_of_faultless {cursor : Cursor}
    (faultless : cursor.fault = none) :
    ∃ after, skipNewlines cursor = .ok () after ∧ after.fault = none ∧
      (after.ahead.takeWhile fun token => !token.endsStatement) =
        nextLine cursor.ahead := by
  fun_induction skipNewlines cursor with
  | case1 cursor newline fault after moved =>
      cases upcoming : cursor.upcoming with
      | nil =>
          cases (Cursor.advance_at_end upcoming faultless).symm.trans moved
      | cons token rest =>
          cases (Cursor.advance_of_upcoming upcoming).symm.trans moved
  | case2 cursor newline _ middle moved inductionHypothesis =>
      cases upcoming : cursor.upcoming with
      | nil =>
          cases (Cursor.advance_at_end upcoming faultless).symm.trans moved
          rcases inductionHypothesis rfl with ⟨after, skipped, rest, same⟩
          refine ⟨after, skipped, rest, ?_⟩
          rw [same]
          simp [nextLine, Cursor.ahead, upcoming, newline,
            Token.endsStatement]
      | cons token others =>
          cases (Cursor.advance_of_upcoming upcoming).symm.trans moved
          rcases inductionHypothesis faultless with
            ⟨after, skipped, rest, same⟩
          refine ⟨after, skipped, rest, ?_⟩
          rw [same]
          simp [nextLine, Cursor.ahead, upcoming, newline]
  | case3 cursor inside =>
      refine ⟨cursor, rfl, faultless, ?_⟩
      simp [nextLine, Cursor.ahead, inside]

/-- Line ends are moved past like other tokens. -/
theorem passes_of_skipNewlines {cursor after : Cursor}
    (skipped : skipNewlines cursor = .ok () after) :
    ∃ tokens, Cursor.Passes cursor tokens after := by
  fun_induction skipNewlines cursor with
  | case1 => cases skipped
  | case2 cursor _ _ _ moved inductionHypothesis =>
      rcases inductionHypothesis skipped with ⟨tokens, passed⟩
      exact ⟨cursor.current :: tokens, .move moved passed⟩
  | case3 =>
      cases skipped
      exact ⟨[], .here⟩

theorem statement_ok_iff {width : Width} {constants : Table Int64}
    {cursor : Cursor} (faultless : cursor.fault = none) {item : Item} :
    (∃ after, statement width constants cursor = .ok (some item) after) ↔
      Grammar.IsStatement width constants (nextLine cursor.ahead) item := by
  rcases skipNewlines_of_faultless faultless with
    ⟨start, skipped, startFaultless, line⟩
  simp only [statement, bind_of_ok skipped, statementHere_ok_iff]
  constructor
  · rintro ⟨after, tokens, passed, derived, ends⟩
    rw [← line, ← passed.eq_takeWhile derived.inside ends]
    exact derived
  · intro derived
    rcases Cursor.exists_passes_takeWhile startFaultless with
      ⟨after, passed, ends⟩
    rw [line] at passed
    exact ⟨after, _, passed, derived, ends⟩

end Parse

namespace Parser

/-- Without errors, the first token is delivered if it was not before. -/
theorem start_of_faultless {parser : Parser}
    (faultless : parser.cursor.fault = none) :
    ∃ first, start parser.started parser.cursor = .ok () first ∧
      first.fault = none ∧
      nextLine first.ahead = nextLine parser.ahead := by
  cases started : parser.started with
  | true =>
      refine ⟨parser.cursor, rfl, faultless, ?_⟩
      simp [ahead, started]
  | false =>
      cases upcoming : parser.cursor.upcoming with
      | nil =>
          refine ⟨_, Cursor.advance_at_end upcoming faultless, rfl, ?_⟩
          simp [ahead, started, upcoming, nextLine, Cursor.ahead,
            Token.endsStatement]
      | cons token rest =>
          refine ⟨_, Cursor.advance_of_upcoming upcoming, faultless, ?_⟩
          simp [ahead, started, upcoming, Cursor.ahead]

/--
In a stream without errors the next statement is an item exactly if the
tokens of the next line are a statement that denotes this item.
-/
theorem next_eq_item_iff {parser : Parser}
    (faultless : parser.cursor.fault = none) (item : Item) :
    parser.next.1 = .ok (some item) ↔
      Grammar.IsStatement parser.width parser.constants
        (nextLine parser.ahead) item := by
  rcases start_of_faultless faultless with
    ⟨first, started, firstFaultless, sameLine⟩
  rw [← sameLine, ← Parse.statement_ok_iff firstFaultless]
  constructor
  · intro given
    rcases exists_of_next given with ⟨after, found⟩
    rw [Parse.bind_of_ok started] at found
    exact ⟨after, found⟩
  · rintro ⟨after, found⟩
    rw [next_of_statement (Parse.bind_ok_iff.2
      ⟨(), first, started, found⟩)]

/-- A displaced operand after an empty line, in front of another line. -/
def displacedMove : Text :=
  Text.ascii "\n\nMOV [x - -1 : ebx], eax\nret"

def displacedMoveItem : Item :=
  .instruction ⟨3, .reversible ⟨⟨4⟩, ⟨5⟩⟩ .word
    (some (.indirectDisplacement ⟨1, .word⟩
      ((SymInt.symbol (Text.ascii "x")).sub (SymInt.constant 1).neg)))
    ⟨0, .word⟩ false⟩

/-- The line is read as the operand in brackets and the register say. -/
theorem next_displacedMove :
    (ofText none .byte ∅ displacedMove).cursor.fault = none ∧
      (ofText none .byte ∅ displacedMove).next.1 =
        .ok (some displacedMoveItem) ∧
      Grammar.IsStatement .byte ∅
        (nextLine (ofText none .byte ∅ displacedMove).ahead)
        displacedMoveItem := by
  have faultless : (ofText none .byte ∅ displacedMove).cursor.fault =
      none := by
    decide +kernel
  have evaluated :
      (ofText none .byte ∅ displacedMove).next.1.toOption =
        some (some displacedMoveItem) := by
    decide +kernel
  cases given : (ofText none .byte ∅ displacedMove).next.1 with
  | error fault =>
      rw [given] at evaluated
      cases evaluated
  | ok result =>
      rw [given] at evaluated
      cases evaluated
      exact ⟨faultless, rfl, (next_eq_item_iff faultless _).1 given⟩

end Parser

end FlatAsm
