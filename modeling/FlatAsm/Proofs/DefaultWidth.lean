import FlatAsm.Proofs.ItemLines
import Mathlib.Data.Option.Defs

/-!
# The default width

A parser has a width for instructions that name no register.  Two parsers
that differ in this width alone are compared here, request by request.  They
move through the same tokens and report the same errors.  Their items are the
same as well, up to the width of jumps, of instructions without operands and
of those whose only operand is a displacement: there each parser uses its own
default.
-/

namespace FlatAsm

/-! ## What may differ -/

/--
The same operation under two default widths.

Only an operation that names no register has the default width.
-/
inductive Operation.UpToDefault (width other : Width) :
    Operation → Operation → Prop where
  | jump {opcode : Opcode} {target : SymInt} :
      UpToDefault width other (.jump opcode width target)
        (.jump opcode other target)
  | nullary {opcode : Opcode} :
      UpToDefault width other (.nullary opcode width)
        (.nullary opcode other)
  | displaced {opcode : Opcode} {value : SymInt} :
      UpToDefault width other
        (.unary opcode width (some (.displacement value)))
        (.unary opcode other (some (.displacement value)))
  | named {opcode : Opcode} {common : Width} {operand : Operand}
      {register : Register} (names : operand.register? = some register) :
      UpToDefault width other (.unary opcode common (some operand))
        (.unary opcode common (some operand))
  | data {items : List SymInt} :
      UpToDefault width other (.data items) (.data items)
  | reversible {pair : Opcode.Pair} {common : Width} {left : Option Operand}
      {right : Register} {reversed : Bool} :
      UpToDefault width other
        (.reversible pair common left right reversed)
        (.reversible pair common left right reversed)

/-- The same statement under two default widths. -/
inductive Item.UpToDefault (width other : Width) : Item → Item → Prop where
  | label {line : Int} {name : Text} :
      UpToDefault width other (.label line name) (.label line name)
  | instruction {line : Int} {operation operation' : Operation}
      (same : operation.UpToDefault width other operation') :
      UpToDefault width other (.instruction ⟨line, operation⟩)
        (.instruction ⟨line, operation'⟩)

/-- Two outcomes with the same error, or with values that are related. -/
inductive OutcomesAgree {ε α : Type} (related : α → α → Prop) :
    Except ε α → Except ε α → Prop where
  | error {fault : ε} :
      OutcomesAgree related (.error fault) (.error fault)
  | ok {value value' : α} (values : related value value') :
      OutcomesAgree related (.ok value) (.ok value')

/-! ## Operations -/

namespace Operation

variable {width other : Width} {mnemonic : Mnemonic}

/-- What suits a mnemonic does so under every default width. -/
theorem exists_upToDefault_of_suits {arguments : List Argument}
    {operation : Operation}
    (suits : Grammar.Suits width mnemonic arguments operation) :
    ∃ operation', Grammar.Suits other mnemonic arguments operation' ∧
      operation.UpToDefault width other operation' := by
  cases suits with
  | data category bytes => exact ⟨_, .data category bytes, .data⟩
  | step category => exact ⟨_, .step category, .reversible⟩
  | jump category => exact ⟨_, .jump category, .jump⟩
  | registerLast category sameWidth =>
      exact ⟨_, .registerLast category sameWidth, .reversible⟩
  | registerFirst category notDirect sameWidth =>
      exact ⟨_, .registerFirst category notDirect sameWidth, .reversible⟩
  | unaryNamed category named =>
      exact ⟨_, .unaryNamed category named, .named named⟩
  | @unaryUnnamed operand category unnamed =>
      refine ⟨_, .unaryUnnamed category unnamed, ?_⟩
      cases operand with
      | displacement => exact .displaced
      | register | indirect | indirectDisplacement => cases unnamed
  | nullary category => exact ⟨_, .nullary category, .nullary⟩

/-- The default takes no part in the comparison of widths. -/
theorem commonWidth_eq_error {operands : List Operand} {cause : Cause}
    (failed : commonWidth width operands = .error cause) :
    commonWidth other operands = .error cause := by
  unfold commonWidth at failed ⊢
  split at failed
  · cases failed
  · exact failed

theorem ofOperands_eq_error {operands : List Operand} {cause : Cause}
    (failed : ofOperands mnemonic width operands = .error cause) :
    ofOperands mnemonic other operands = .error cause := by
  cases category : mnemonic.category <;>
    rw [ofOperands, category] at failed ⊢ <;> grind

/-- Steps fail one after the other if one of them does. -/
theorem bind_eq_error_iff {ε α β : Type} {first : Except ε α}
    {next : α → Except ε β} {fault : ε} :
    first >>= next = .error fault ↔
      first = .error fault ∨
        ∃ value, first = .ok value ∧ next value = .error fault := by
  cases first <;> simp [bind, Except.bind]

theorem ofArguments_eq_error {count : SymInt} {arguments : List Argument}
    {cause : Cause}
    (failed : ofArguments width mnemonic count arguments = .error cause) :
    ofArguments other mnemonic count arguments = .error cause := by
  by_cases isData :
      mnemonic.category = .data ∨ mnemonic.category = .times
  · rcases isData with category | category <;>
      rw [ofArguments, category] at failed ⊢ <;> exact failed
  rw [not_or] at isData
  rw [ofArguments_eq_operands isData.1 isData.2, bind_eq_error_iff]
    at failed ⊢
  rcases failed with failed | ⟨operands, converted, failed⟩
  · exact .inl failed
  refine .inr ⟨operands, converted, ?_⟩
  rw [bind_eq_error_iff] at failed ⊢
  rcases failed with failed | ⟨common, compared, failed⟩
  · exact .inl (commonWidth_eq_error failed)
  cases otherCompared : commonWidth other operands with
  | error mismatch =>
      rw [commonWidth_eq_error otherCompared] at compared
      cases compared
  | ok common' => exact .inr ⟨common', rfl, ofOperands_eq_error failed⟩

/-- The default width decides nothing but the width of what is made. -/
theorem ofArguments_agree (width other : Width) (mnemonic : Mnemonic)
    (count : SymInt) (arguments : List Argument) :
    OutcomesAgree (UpToDefault width other)
      (ofArguments width mnemonic count arguments)
      (ofArguments other mnemonic count arguments) := by
  cases made : ofArguments width mnemonic count arguments with
  | error cause =>
      rw [ofArguments_eq_error made]
      exact .error
  | ok operation =>
      by_cases category : mnemonic.category = .times
      · rw [ofArguments_times_eq_ok_iff category] at made
        obtain ⟨items, bytes, isCount, rfl⟩ := made
        have again := (@ofArguments_times_eq_ok_iff other _ _ _ _
          category).2 ⟨items, bytes, isCount, rfl⟩
        rw [again]
        exact .ok .data
      · obtain ⟨operation', suits, same⟩ := exists_upToDefault_of_suits
          ((ofArguments_eq_ok_iff category).1 made)
        rw [(ofArguments_eq_ok_iff category).2 suits]
        exact .ok same

end Operation

/-! ## Steps of parsing -/

namespace Parse

variable {α β : Type} {related : α → α → Prop}

/-- Results at one place, with the same error or with related values. -/
inductive ResultsAgree (related : α → α → Prop) :
    EStateM.Result Error Cursor α → EStateM.Result Error Cursor α →
      Prop where
  | error {fault : Error} {cursor : Cursor} :
      ResultsAgree related (.error fault cursor) (.error fault cursor)
  | ok {value value' : α} {cursor : Cursor}
      (values : related value value') :
      ResultsAgree related (.ok value cursor) (.ok value' cursor)

/-- Two steps that lead to the same place from every place. -/
def Agree (related : α → α → Prop) (parse parse' : Parse α) : Prop :=
  ∀ cursor, ResultsAgree related (parse cursor) (parse' cursor)

theorem Agree.bind {related' : β → β → Prop} {first first' : Parse α}
    {next next' : α → Parse β} (step : Agree related first first')
    (further : ∀ {value value'}, related value value' →
      Agree related' (next value) (next' value')) :
    Agree related' (first >>= next) (first' >>= next') := by
  intro cursor
  have here := step cursor
  generalize found : first cursor = result at here
  generalize found' : first' cursor = result' at here
  cases here with
  | error =>
      rw [bind_of_error found, bind_of_error found']
      exact .error
  | ok values =>
      rw [bind_of_ok found, bind_of_ok found']
      exact further values _

theorem agree_refl (reflexive : ∀ value, related value value)
    (parse : Parse α) : Agree related parse parse := by
  intro cursor
  cases parse cursor with
  | error => exact .error
  | ok value => exact .ok (reflexive value)

/-- A first step that two sequences have in common does not matter. -/
theorem agree_bind (first : Parse β) {next next' : β → Parse α}
    (further : ∀ value, Agree related (next value) (next' value)) :
    Agree related (first >>= next) (first >>= next') := by
  refine (agree_refl (fun _ => rfl) first).bind ?_
  rintro value _ rfl
  exact further value

variable (width other : Width) (constants : Table Int64)

omit constants in
theorem liftOperation_agree (line : Int) (mnemonic : Mnemonic)
    {made made' : Except Cause Operation}
    (agree : OutcomesAgree (Operation.UpToDefault width other) made made') :
    Agree (Item.UpToDefault width other) (liftOperation line mnemonic made)
      (liftOperation line mnemonic made') := by
  intro cursor
  cases agree with
  | error => exact .error
  | ok values => exact .ok (.instruction values)

theorem instruction_agree (mnemonic : Mnemonic) :
    Agree (Item.UpToDefault width other)
      (instruction width constants mnemonic)
      (instruction other constants mnemonic) := by
  refine agree_bind _ fun keyword => agree_bind _ fun _ => ?_
  refine agree_bind _ fun count => agree_bind _ fun parsed => ?_
  exact liftOperation_agree _ _ _ _
    (Operation.ofArguments_agree width other mnemonic count parsed)

omit constants in
theorem complete_agree {item item' : Item}
    (same : item.UpToDefault width other item') :
    Agree (Option.Rel (Item.UpToDefault width other)) (complete item)
      (complete item') := by
  refine agree_bind _ fun token => ?_
  intro cursor
  split
  · exact .ok (.some same)
  · exact .error

omit constants in
theorem label_agree : Agree (Item.UpToDefault width other) label label := by
  intro cursor
  cases found : label cursor with
  | error => exact .error
  | ok item after =>
      obtain ⟨name, -, -, rfl⟩ := label_ok_iff.1 found
      exact .ok .label

theorem statementHere_agree :
    Agree (Option.Rel (Item.UpToDefault width other))
      (statementHere width constants) (statementHere other constants) := by
  intro cursor
  unfold statementHere
  split
  · exact .ok .none
  · exact (label_agree width other).bind (complete_agree width other) cursor
  · exact (instruction_agree width other constants _).bind
      (complete_agree width other) cursor
  · exact .error

theorem statement_agree :
    Agree (Option.Rel (Item.UpToDefault width other))
      (statement width constants) (statement other constants) :=
  agree_bind _ fun _ => statementHere_agree width other constants

end Parse

/-! ## Parsers -/

namespace Parser

/-- What a parser answers to the requests for a statement among others. -/
def answers (parser : Parser) :
    List Request → List (Except Error (Option Item))
  | [] => []
  | .close :: requests => parser.close.answers requests
  | .next :: requests => parser.next.1 :: parser.next.2.answers requests

/-- The same parser with another default width. -/
def withDefault (parser : Parser) (width : Width) : Parser :=
  { parser with width := width }

theorem next_width (parser : Parser) :
    parser.next.2.width = parser.width := by
  unfold next
  dsimp only
  split <;> rfl

/-- One request is answered alike, and leads to the same place. -/
theorem next_withDefault (parser : Parser) (other : Width) :
    OutcomesAgree (Option.Rel (Item.UpToDefault parser.width other))
        parser.next.1 (parser.withDefault other).next.1 ∧
      (parser.withDefault other).next.2 =
        parser.next.2.withDefault other := by
  have step := Parse.agree_bind (start parser.started)
    (fun _ => Parse.statement_agree parser.width other parser.constants)
    parser.cursor
  unfold next withDefault
  dsimp only
  generalize (start parser.started >>= fun _ =>
    Parse.statement parser.width parser.constants) parser.cursor = result
    at step ⊢
  generalize (start parser.started >>= fun _ =>
    Parse.statement other parser.constants) parser.cursor = result'
    at step ⊢
  cases step with
  | error => exact ⟨.error, rfl⟩
  | ok values => exact ⟨.ok values, rfl⟩

/-- All requests are answered alike. -/
theorem answers_withDefault (parser : Parser) (other : Width)
    (requests : List Request) :
    List.Forall₂
      (OutcomesAgree (Option.Rel (Item.UpToDefault parser.width other)))
      (parser.answers requests)
      ((parser.withDefault other).answers requests) := by
  induction requests generalizing parser with
  | nil => exact .nil
  | cons request requests inductionHypothesis =>
      cases request with
      | close => exact inductionHypothesis parser.close
      | next =>
          obtain ⟨same, after⟩ := parser.next_withDefault other
          have others := inductionHypothesis parser.next.2
          rw [next_width, ← after] at others
          exact .cons same others

theorem Delivers.withDefault {parser : Parser} {items : List Item}
    {fault : Option Error} (delivered : Delivers parser items fault)
    (other : Width) :
    ∃ items', Delivers (parser.withDefault other) items' fault ∧
      List.Forall₂ (Item.UpToDefault parser.width other) items items' := by
  induction delivered with
  | @ended parser done =>
      obtain ⟨same, -⟩ := parser.next_withDefault other
      rw [done] at same
      refine ⟨[], .ended ?_, .nil⟩
      generalize (parser.withDefault other).next.1 = answer at same ⊢
      cases same with
      | ok values =>
          cases values
          rfl
  | @failed parser fault failure =>
      obtain ⟨same, -⟩ := parser.next_withDefault other
      rw [failure] at same
      refine ⟨[], .failed ?_, .nil⟩
      generalize (parser.withDefault other).next.1 = answer at same ⊢
      cases same
      rfl
  | @item parser item items fault given _ inductionHypothesis =>
      obtain ⟨same, after⟩ := parser.next_withDefault other
      obtain ⟨items', delivered, others⟩ := inductionHypothesis
      rw [given] at same
      rw [← after] at delivered
      rw [next_width] at others
      generalize answered : (parser.withDefault other).next.1 = answer
        at same
      cases same with
      | ok values =>
          cases values with
          | some sameItem =>
              exact ⟨_, .item answered delivered, .cons sameItem others⟩

/--
Whatever is requested from a parser of a text, the default width matters only
for the width of instructions that name no register.
-/
theorem ofText_upToDefault (evaluator : Option Evaluator)
    (constants : Table Int64) (text : Text) (width other : Width) :
    (∀ requests, List.Forall₂
      (OutcomesAgree (Option.Rel (Item.UpToDefault width other)))
      ((ofText evaluator width constants text).answers requests)
      ((ofText evaluator other constants text).answers requests)) ∧
    ∃ items items' fault,
      Delivers (ofText evaluator width constants text) items fault ∧
        Delivers (ofText evaluator other constants text) items' fault ∧
        List.Forall₂ (Item.UpToDefault width other) items items' := by
  refine ⟨answers_withDefault (ofText evaluator width constants text) other,
    ?_⟩
  have delivered :=
    parse_delivers width constants (tokenize evaluator text)
  obtain ⟨items', delivered', same⟩ := delivered.withDefault other
  exact ⟨_, items', _, delivered, delivered', same⟩

end Parser

end FlatAsm
