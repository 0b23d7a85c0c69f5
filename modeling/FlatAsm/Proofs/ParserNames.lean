import FlatAsm.Assembler
import FlatAsm.Proofs.StatementGrammar

/-!
# The names in statements

The labels of a statement are names among the tokens that it is read from,
and a token is a name only if its text is a word that is neither a register
nor a mnemonic.  So every label that a parser hands out could be defined as a
constant too.
-/

namespace FlatAsm

/-! ## The labels of a statement -/

/-- The labels that the value has a coefficient for. -/
def SymInt.labels (value : SymInt) : List Text :=
  value.coefficients.entries.map Prod.fst

/-- The labels of an operand. -/
def Operand.labels : Operand → List Text
  | .register _ => []
  | .displacement value => value.labels
  | .indirect _ => []
  | .indirectDisplacement _ value => value.labels

/-- The labels of an argument. -/
def Argument.labels : Argument → List Text
  | .string _ => []
  | .operand content => content.labels

/-- The labels of an operation. -/
def Operation.labels : Operation → List Text
  | .data items => items.flatMap SymInt.labels
  | .jump _ _ target => target.labels
  | .reversible _ _ left _ _ => left.toList.flatMap Operand.labels
  | .unary _ _ operand => operand.toList.flatMap Operand.labels
  | .nullary _ _ => []

/-- The labels that a statement declares or refers to. -/
def Item.labels : Item → List Text
  | .label _ name => [name]
  | .instruction content => content.operation.labels

namespace SymInt

@[simp]
theorem labels_constant (number : Int64) : (constant number).labels = [] :=
  rfl

@[simp]
theorem labels_symbol (label : Text) : (symbol label).labels = [label] :=
  rfl

theorem mem_labels_of_coefficient {value : SymInt} {label : Text}
    (used : value.coefficient label ≠ 0) : label ∈ value.labels := by
  cases found : value.coefficients.find? label with
  | none => simp [coefficient, found] at used
  | some factor =>
      exact List.mem_map.2
        ⟨(label, factor), Table.mem_entries_iff.2 found, rfl⟩

theorem coefficient_ne_zero_of_mem_labels {value : SymInt}
    (reduced : value.Reduced) {label : Text}
    (member : label ∈ value.labels) : value.coefficient label ≠ 0 := by
  rcases List.mem_map.1 member with ⟨⟨_, factor⟩, inEntries, rfl⟩
  rw [coefficient, Table.mem_entries_iff.1 inEntries]
  exact reduced _ inEntries

/-- Arithmetic brings in no labels. -/
theorem mem_labels_of_combine {left right : SymInt} {sign : Int64}
    {label : Text} (member : label ∈ (left.combine sign right).labels) :
    label ∈ left.labels ∨ label ∈ right.labels := by
  have used := coefficient_ne_zero_of_mem_labels
    (reduced_combine left sign right) member
  rw [coefficient_combine] at used
  by_cases inLeft : left.coefficient label = 0
  · right
    apply mem_labels_of_coefficient
    intro inRight
    rw [inLeft, inRight, Int64.mul_zero] at used
    exact used rfl
  · left
    exact mem_labels_of_coefficient inLeft

end SymInt

/-! ## Names among tokens -/

namespace Grammar

/-- The names among some tokens. -/
def names (tokens : List Token) : List Text :=
  (tokens.filter fun token => token.kind = .identifier).map Token.text

@[grind =]
theorem mem_names_cons {name : Text} {token : Token} {rest : List Token} :
    name ∈ names (token :: rest) ↔
      token.kind = .identifier ∧ name = token.text ∨ name ∈ names rest := by
  by_cases kind : token.kind = .identifier <;> simp [names, kind]

@[grind =]
theorem names_append (front back : List Token) :
    names (front ++ back) = names front ++ names back := by
  simp [names]

variable {constants : Table Int64} {tokens : List Token}

/-- A term has labels only where its tokens have names. -/
theorem IsTerm.labels_subset {value : SymInt}
    (term : IsTerm constants tokens value) :
    value.labels ⊆ names tokens := by
  induction term with
  | integer => simp
  | constant => simp
  | label kind => simp [mem_names_cons, kind]
  | negated _ _ inductionHypothesis =>
      intro label member
      rcases SymInt.mem_labels_of_combine member with inZero | inValue
      · cases inZero
      · exact mem_names_cons.2 (.inr (inductionHypothesis inValue))

theorem IsExpression.labels_subset {value : SymInt}
    (expression : IsExpression constants tokens value) :
    value.labels ⊆ names tokens := by
  induction expression with
  | term only => exact only.labels_subset
  | sum _ _ last inductionHypothesis =>
      intro label member
      rcases SymInt.mem_labels_of_combine member with inLeft | inRight
      · have inFront := inductionHypothesis inLeft
        grind
      · have inBack := last.labels_subset inRight
        grind
  | difference _ _ last inductionHypothesis =>
      intro label member
      rcases SymInt.mem_labels_of_combine member with inLeft | inRight
      · have inFront := inductionHypothesis inLeft
        grind
      · have inBack := last.labels_subset inRight
        grind

theorem IsAddress.labels_subset {operand : Operand}
    (address : IsAddress constants tokens operand) :
    operand.labels ⊆ names tokens := by
  cases address with
  | pointer => simp [Operand.labels]
  | registerFirst _ _ _ displaced =>
      intro label member
      have inDisplacement := displaced.labels_subset member
      grind
  | registerLast _ displaced =>
      intro label member
      have inDisplacement := displaced.labels_subset member
      grind

theorem IsArgument.labels_subset {argument : Argument}
    (given : IsArgument constants tokens argument) :
    argument.labels ⊆ names tokens := by
  cases given with
  | string => simp [Argument.labels]
  | register => simp [Argument.labels, Operand.labels]
  | address bracketed => exact bracketed.labels_subset
  | expression summed => exact summed.labels_subset

theorem AreArguments.labels_subset {arguments : List Argument}
    (given : AreArguments constants tokens arguments) :
    arguments.flatMap Argument.labels ⊆ names tokens := by
  induction given with
  | last only => simpa using only.labels_subset
  | further first _ _ inductionHypothesis =>
      intro label member
      rcases List.mem_append.1 member with inFirst | inOthers
      · have inFront := first.labels_subset inFirst
        grind
      · have inBack := inductionHypothesis inOthers
        grind

theorem AreOptionalArguments.labels_subset {arguments : List Argument}
    (given : AreOptionalArguments constants tokens arguments) :
    arguments.flatMap Argument.labels ⊆ names tokens := by
  cases given with
  | none => simp
  | some given => exact given.labels_subset

theorem IsData.labels_subset {argument : Argument} {items : List SymInt}
    (bytes : IsData argument items) :
    items.flatMap SymInt.labels ⊆ argument.labels := by
  cases bytes with
  | string =>
      intro label member
      rcases List.mem_flatMap.1 member with ⟨value, isByte, inValue⟩
      rcases List.mem_map.1 isByte with ⟨byte, -, rfl⟩
      cases inValue
  | value => simp [Argument.labels, Operand.labels]

theorem AreData.labels_subset {arguments : List Argument}
    {items : List SymInt} (bytes : AreData arguments items) :
    items.flatMap SymInt.labels ⊆ arguments.flatMap Argument.labels := by
  induction bytes with
  | last only => simpa using only.labels_subset
  | further first _ inductionHypothesis =>
      rw [List.flatMap_append, List.flatMap_cons]
      intro label member
      rcases List.mem_append.1 member with inFirst | inOthers
      · exact List.mem_append_left _ (first.labels_subset inFirst)
      · exact List.mem_append_right _ (inductionHypothesis inOthers)

theorem Suits.labels_subset {default : Width} {mnemonic : Mnemonic}
    {arguments : List Argument} {operation : Operation}
    (suits : Suits default mnemonic arguments operation) :
    operation.labels ⊆ arguments.flatMap Argument.labels := by
  cases suits with
  | data _ bytes => exact bytes.labels_subset
  | _ =>
      simp [Operation.labels, Argument.labels, Operand.labels]

/-- The labels of a statement are names among its tokens. -/
theorem IsStatement.labels_subset {default : Width} {item : Item}
    (statement : IsStatement default constants tokens item) :
    item.labels ⊆ names tokens := by
  cases statement with
  | label _ named => simp [Item.labels, mem_names_cons, named]
  | instruction _ listed suits =>
      intro label member
      have inArguments := suits.labels_subset member
      exact mem_names_cons.2 (.inr (listed.labels_subset inArguments))
  | repetition _ _ _ _ listed bytes _ =>
      intro label member
      rcases List.mem_flatMap.1 member with ⟨value, inCopies, inValue⟩
      rcases List.mem_flatten.1 inCopies with ⟨copy, isCopy, inCopy⟩
      rw [List.eq_of_mem_replicate isCopy] at inCopy
      have inTokens := listed.labels_subset (bytes.labels_subset
        (List.mem_flatMap.2 ⟨value, inCopy, inValue⟩))
      grind

end Grammar

/-! ## Names of a parser -/

open Grammar (names)

/-- Moving past tokens leaves the names of the others. -/
theorem Cursor.Passes.names_ahead {cursor after : Cursor}
    {tokens : List Token} (passed : Passes cursor tokens after) :
    names cursor.ahead = names tokens ++ names after.ahead := by
  induction passed with
  | here => rfl
  | @move cursor middle _ tokens moved _ inductionHypothesis =>
      have single : names cursor.ahead =
          names [cursor.current] ++ names middle.ahead := by
        rw [ahead, ← List.singleton_append, Grammar.names_append]
        -- what is found after the last token is no name
        rcases cursor with ⟨current, _ | ⟨token, rest⟩, _ | fault⟩ <;>
          cases moved <;> rfl
      rw [single, inductionHypothesis, ← List.append_assoc,
        ← Grammar.names_append]
      rfl

namespace Token

theorem wordKind_eq_identifier_iff {word : Text} :
    wordKind word = .identifier ↔
      Register.ofName? word = none ∧ Mnemonic.ofName? word = none := by
  unfold wordKind
  cases Register.ofName? word <;> cases Mnemonic.ofName? word <;> simp

/-- What is read as a name can be defined. -/
theorem isDefinable_of_scanToken {evaluator : Option Evaluator}
    {line : Int} {text : Text} {scanned : Scanned}
    (result : scanToken evaluator line text = .ok scanned)
    (kind : scanned.token.kind = .identifier) :
    Assembler.isDefinable scanned.token.text = true := by
  rcases scanToken_word result (by rw [kind]; rfl) with ⟨word, sameKind⟩
  rcases wordKind_eq_identifier_iff.1 (sameKind.symm.trans kind) with
    ⟨noRegister, noMnemonic⟩
  simp [Assembler.isDefinable, word, noRegister, noMnemonic]

end Token

theorem isDefinable_of_mem_names_tokenize {evaluator : Option Evaluator}
    {text name : Text}
    (member : name ∈ names (tokenize evaluator text).tokens) :
    Assembler.isDefinable name = true := by
  have each : ∀ token ∈ (tokenize evaluator text).tokens,
      token.kind = .identifier → Assembler.isDefinable token.text = true :=
    TokenStream.forall_scanOnto
      (fun _ _ _ result => Token.isDefinable_of_scanToken result) (by simp)
  rcases List.mem_map.1 member with ⟨token, kept, rfl⟩
  rcases List.mem_filter.1 kept with ⟨inTokens, kind⟩
  exact each token inTokens (of_decide_eq_true kind)

namespace Parser

/-- A statement is read from tokens that the parser moves past. -/
theorem passes_of_next {parser : Parser} {item : Item}
    (given : parser.next.1 = .ok (some item)) :
    ∃ skipped tokens middle,
      parser.cursor.Passes skipped middle ∧
        middle.Passes tokens parser.next.2.cursor ∧
        Grammar.IsStatement parser.width parser.constants tokens item := by
  rcases exists_of_next given with ⟨after, found⟩
  rcases Parse.bind_ok_iff.1 found with ⟨_, first, started, parsed⟩
  rcases Parse.bind_ok_iff.1 parsed with ⟨_, middle, blank, here⟩
  rcases Parse.statementHere_ok_iff.1 here with ⟨tokens, passed, statement, -⟩
  rcases Parse.passes_of_skipNewlines blank with ⟨newlines, skipped⟩
  have opening : ∃ tokens, parser.cursor.Passes tokens first := by
    unfold start at started
    split at started
    · cases started
      exact ⟨[], .here⟩
    · exact ⟨_, .single started⟩
  rcases opening with ⟨opened, passedFirst⟩
  refine ⟨opened ++ newlines, tokens, middle, passedFirst.trans skipped,
    ?_, statement⟩
  rw [next_of_statement found]
  exact passed

theorem Delivers.labels_subset {parser : Parser} {items : List Item}
    {fault : Option Error} (delivered : Delivers parser items fault) :
    items.flatMap Item.labels ⊆ names parser.cursor.ahead := by
  induction delivered with
  | ended => simp
  | failed => simp
  | item given _ inductionHypothesis =>
      rcases passes_of_next given with
        ⟨skipped, tokens, middle, passedSkipped, passed, statement⟩
      rw [passedSkipped.names_ahead, passed.names_ahead]
      apply List.subset_append_of_subset_right
      intro label member
      rcases List.mem_append.1 member with inItem | inOthers
      · exact List.mem_append_left _ (statement.labels_subset inItem)
      · exact List.mem_append_right _ (inductionHypothesis inOthers)

/-- All labels that a parser of a text hands out can be defined. -/
theorem Delivers.isDefinable {evaluator : Option Evaluator}
    {width : Width} {constants : Table Int64} {text : Text}
    {items : List Item} {fault : Option Error}
    (delivered :
      Delivers (ofText evaluator width constants text) items fault) :
    ∀ item ∈ items, ∀ label ∈ item.labels,
      Assembler.isDefinable label = true := by
  intro item member label inItem
  have inTokens := delivered.labels_subset
    (List.mem_flatMap.2 ⟨item, member, inItem⟩)
  -- before the first token a parser stands at no name
  exact isDefinable_of_mem_names_tokenize inTokens

end Parser

end FlatAsm
