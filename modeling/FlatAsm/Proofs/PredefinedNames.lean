import FlatAsm.Proofs.ConstantNames
import FlatAsm.Proofs.ReferenceEquivalence
import FlatAsm.Proofs.SessionHistory
import FlatAsm.Proofs.StatementBytes
import FlatAsm.Proofs.StatementLines
import FlatAsm.Proofs.WrittenTokens

/-!
# Predefined names

A name can be predefined if and only if a text can refer to it, which is to
say that it is read as a name when it stands alone.  From then on, until it
is predefined again, the name is a number wherever it is used, and no label
can have it.
-/

namespace FlatAsm

/-! ## Names that stand alone -/

/-- All that is read is this name. -/
def TokenStream.IsName (stream : TokenStream) (name : Text) : Prop :=
  ∃ token last : Token, stream = ⟨[token, last], none⟩ ∧
    token.kind = .identifier ∧ token.text = name ∧
    last.kind = .endOfText

/-- What can be defined is what is read as a name. -/
theorem isName_tokenize_iff {evaluator : Option Evaluator} {name : Text} :
    (tokenize evaluator name).IsName name ↔
      Assembler.isDefinable name = true := by
  constructor
  · rintro ⟨token, last, read, kind, rfl, -⟩
    refine @isDefinable_of_mem_names_tokenize evaluator token.text _ ?_
    rw [read]
    exact Grammar.mem_names_cons.2 (.inl ⟨kind, rfl⟩)
  · intro definable
    -- a name that can be defined is a label name if nothing is known
    have usable : IsLabelName ∅ name := ⟨definable, rfl⟩
    rw [(TokenStream.reads_word evaluator 1 usable.isWord).tokenize_eq]
    exact ⟨_, _, rfl, usable.wordKind_eq, rfl, rfl⟩

/-! ## Labels and constants -/

/-- A label cannot be declared with the name of a constant. -/
theorem Layout.ofItems_declared {constants : Table Int64} {name : Text}
    (known : constants.contains name = true) (front back : List Item)
    (line : Int) :
    Layout.ofItems constants (front ++ .label line name :: back) =
      match Layout.ofItems constants front with
      | .error fault => .error fault
      | .ok _ =>
          .error (.malformed line (0x2e :: name) .labelDuplicate) := by
  rw [ofItems, List.foldlM_append, ← ofItems]
  cases ofItems constants front with
  | error fault => rfl
  | ok layout =>
      have duplicate : layout.place constants (.label line name) =
          .error (.malformed line (0x2e :: name) .labelDuplicate) := by
        rw [place, declare, known, Bool.or_true, if_pos rfl]
      simp only [bind, Except.bind, List.foldlM_cons, duplicate]

/-- The name does not occur as a label in the program. -/
structure Program.LacksLabel (program : Program) (name : Text) : Prop where
  undeclared : program.symbols.find? name = none
  unused : ∀ statement ∈ program.statements,
    name ∉ statement.instruction.operation.labels

namespace Assembler

variable {language : FormulaLanguage} {assembler : Assembler} {text : Text}
  {program : Program}

/-- The tokens of a text, as an assembler reads them. -/
def scanned (assembler : Assembler) (language : FormulaLanguage)
    (text : Text) : TokenStream :=
  tokenize (some (language assembler.defaultWidth assembler.constants)) text

/-- No name of a constant is used for a label. -/
theorem lacksLabel_of_assembleWith
    (assembled : assembler.assembleWith language (.ok text) = .ok program)
    {name : Text} (known : assembler.constants.contains name = true) :
    program.LacksLabel name := by
  have delivered := assembler.parser_delivers language text
  have disjoint := disjoint_of_assembleWith assembled delivered
  constructor
  case undeclared =>
    by_contra declared
    rw [disjoint name (Option.isSome_iff_ne_none.2 declared)] at known
    cases known
  case unused =>
    intro statement member used
    have listed := (exists_statement_iff assembled delivered).1
      ⟨statement, member, rfl⟩
    have unknown :=
      ((delivered.yields .start _ listed).isLabelName name used).unknown
    rw [Table.contains, unknown] at known
    cases known

end Assembler

/-! ## Numbers in place of names -/

/-- Looking up one name first makes up for any value it might have. -/
theorem Table.joins_insert {constants others : Table Int64} {name : Text}
    {value : Int64} (found : constants.find? name = some value)
    (same : ∀ other, other ≠ name →
      others.find? other = constants.find? other) :
    constants.Joins ((∅ : Table Int64).insert name value) others := by
  intro other
  rw [Table.find?_insert]
  by_cases equal : other = name
  · rw [if_pos equal, equal, found, Option.some_or]
  · rw [if_neg equal, find?_empty, Option.none_or, same other equal]

namespace Session

open Grammar (IsExpression IsStatement)

/--
In a text that is assembled with these settings, a name is a number.

The answer is what comes of assembling the text.  What the name means where
it is not replaced by the number makes no difference.
-/
structure ReadsAsNumber (language : FormulaLanguage)
    (settings : Assembler) (name : Text) (value : Int64) (text : Text)
    (answer : Answer) : Prop where
  /-- The program is made of what the lines of the text say. -/
  lines : Parser.ReadsLines settings.defaultWidth settings.constants
    (statementLines (settings.scanned language text).tokens)
    (settings.parsed language text).items
    (settings.parsed language text).fault
  assembled : settings.defaultWidth.isSupported = true →
    answer = (assembleParsed settings.constants
      (settings.parsed language text)).map some
  /-- Numbers can be put in place of the name in any expression, … -/
  expressions : ∀ others : Table Int64,
    (∀ other, other ≠ name →
      others.find? other = settings.constants.find? other) →
    ∀ tokens meaning,
      IsExpression settings.constants tokens meaning ↔
        IsExpression others (tokens.map
          (Token.withNumber ((∅ : Table Int64).insert name value))) meaning
  /-- … and so in any instruction. -/
  instructions : ∀ others : Table Int64,
    (∀ other, other ≠ name →
      others.find? other = settings.constants.find? other) →
    ∀ tokens instruction,
      IsStatement settings.defaultWidth settings.constants tokens
          (.instruction instruction) ↔
        IsStatement settings.defaultWidth others (tokens.map
            (Token.withNumber ((∅ : Table Int64).insert name value)))
          (.instruction instruction)
  /-- A label of this name is an error, unless there is one before it. -/
  declared : settings.defaultWidth.isSupported = true →
    ∀ front line back,
      (settings.parsed language text).items =
          front ++ .label line name :: back →
        answer =
          match Layout.ofItems settings.constants front with
          | .error fault => .error fault
          | .ok _ =>
              .error (.malformed line (0x2e :: name) .labelDuplicate)
  /-- No name is both a constant and a label. -/
  separate : ∀ program, answer = .ok (some program) →
    ∀ other, settings.constants.contains other = true →
      program.LacksLabel other

variable {language : FormulaLanguage}

theorem readsAsNumber {settings : Assembler} {name : Text}
    {value : Int64} (found : settings.constants.find? name = some value)
    (text : Text) :
    ReadsAsNumber language settings name value text
      (answer language settings (.assemble (.ok text))) := by
  have delivered := settings.parser_delivers language text
  have assembled : settings.defaultWidth.isSupported = true →
      answer language settings (.assemble (.ok text)) =
        (assembleParsed settings.constants
          (settings.parsed language text)).map some := by
    intro supported
    rw [answer, Assembler.assembleWith_eq supported delivered]
  constructor
  case lines => exact delivered.ofText_readsLines
  case assembled => exact assembled
  case expressions =>
    intro others same tokens meaning
    exact (IsExpression.withNumber_iff
      (Table.joins_insert found same)).symm
  case instructions =>
    intro others same tokens instruction
    exact (IsStatement.withNumber_iff
      (Table.joins_insert found same)).symm
  case declared =>
    intro supported front line back split
    have known : settings.constants.contains name = true := by
      rw [Table.contains, found]
      rfl
    rw [assembled supported, assembleParsed, split,
      Layout.ofItems_declared known]
    cases Layout.ofItems settings.constants front <;> rfl
  case separate =>
    intro program made other known
    rw [answer] at made
    cases result : settings.assembleWith language (.ok text) with
    | error fault =>
        rw [result] at made
        cases made
    | ok program =>
        rw [result] at made
        cases made
        exact Assembler.lacksLabel_of_assembleWith result known

/-! ## From one definition to the next -/

/-- Only a definition of a name changes what the name stands for. -/
theorem find?_settingsAfter {settings : Assembler} {name : Text}
    {request : Step} (kept : ∀ other, request ≠ .predefine name other) :
    (settingsAfter settings request).constants.find? name =
      settings.constants.find? name := by
  cases request with
  | setWidth width => rfl
  | assemble source => rfl
  | predefine other value =>
      have different : name ≠ other := by
        rintro rfl
        exact kept value rfl
      rw [settingsAfter]
      split
      · rw [Table.find?_insert, if_neg different]
      · rfl

/-- So a name keeps its value until it is defined again. -/
theorem find?_foldl_settingsAfter {settings : Assembler} {name : Text}
    {steps : List Step} (kept : ∀ other, .predefine name other ∉ steps) :
    (steps.foldl settingsAfter settings).constants.find? name =
      settings.constants.find? name := by
  induction steps generalizing settings with
  | nil => rfl
  | cons request rest inductionHypothesis =>
      have here : ∀ other, request ≠ .predefine name other :=
        fun other same => kept other (same ▸ List.mem_cons_self)
      have later : ∀ other, .predefine name other ∉ rest :=
        fun other member => kept other (List.mem_cons_of_mem _ member)
      rw [List.foldl_cons, inductionHypothesis later,
        find?_settingsAfter here]

/-- A definition is accepted if source text can refer to the name. -/
theorem step_predefine_iff (language : FormulaLanguage)
    (before : List Step) (name : Text) (value : Int64) :
    ((initial.run language before).2.step language
        (.predefine name value)).1 = .ok none ↔
      Assembler.isDefinable name = true := by
  rw [show initial = ofSettings .initial from rfl, run_ofSettings,
    step_ofSettings]
  dsimp only
  rw [answer]
  split
  · next definable => exact iff_of_true rfl definable
  · next undefinable => exact iff_of_false (by simp) undefinable

/--
What comes of giving a name a value after some steps.

Whether a name is read as one does not depend on how formulas are computed.
-/
structure Predefines (language : FormulaLanguage) (before : List Step)
    (name : Text) (value : Int64) : Prop where
  /-- It is possible if and only if the name is read as one. -/
  accepted : ∀ evaluator,
    ((initial.run language before).2.step language
        (.predefine name value)).1 = .ok none ↔
      (tokenize evaluator name).IsName name
  /-- Otherwise nothing changes. -/
  rejected : ((initial.run language before).2.step language
        (.predefine name value)).1 ≠ .ok none →
    (initial.run language before).2.step language
        (.predefine name value) =
      (.error (.predefine name), (initial.run language before).2)
  /-- Afterwards the name is a number, until it is defined again. -/
  remembered : ((initial.run language before).2.step language
        (.predefine name value)).1 = .ok none →
    ∀ between, (∀ other, .predefine name other ∉ between) → ∀ text,
      ReadsAsNumber language
        (initial.run language
          (before ++ .predefine name value :: between)).2.settings
        name value text
        ((initial.run language
          (before ++ .predefine name value :: between)).2.step language
            (.assemble (.ok text))).1

/-- The names that can be predefined are those that a text can refer to. -/
theorem run_predefines (language : FormulaLanguage) (before : List Step)
    (name : Text) (value : Int64) :
    Predefines language before name value := by
  have new : initial = ofSettings .initial := rfl
  have definable_iff := step_predefine_iff language before name value
  constructor
  case accepted =>
    intro evaluator
    rw [isName_tokenize_iff, definable_iff]
  case rejected =>
    intro refused
    have undefinable := mt definable_iff.2 refused
    rw [new, run_ofSettings, step_ofSettings, answer, settingsAfter,
      if_neg undefinable, if_neg undefinable]
  case remembered =>
    intro success between kept text
    have definable := definable_iff.1 success
    have found : ((before ++ .predefine name value :: between).foldl
        settingsAfter .initial).constants.find? name = some value := by
      rw [List.foldl_append, List.foldl_cons,
        find?_foldl_settingsAfter kept, settingsAfter, if_pos definable,
        Table.find?_insert, if_pos rfl]
    rw [new, run_ofSettings, step_ofSettings]
    exact readsAsNumber found text

/-- A byte that is given by name, and a label of the same name. -/
def namedByte : Text :=
  Text.ascii "data x - 2\n.x"

/-- The name is a number on the first line, and no label on the second. -/
theorem namedByte_predefined :
    ((initial.run Formula.evaluate []).2.step Formula.evaluate
        (.predefine (Text.ascii "x") 7)).1 = .ok none ∧
      ((initial.run Formula.evaluate
          [.predefine (Text.ascii "x") 7, .setWidth .word]).2.step
            Formula.evaluate (.assemble (.ok namedByte))).1 =
        .error (.malformed 2 (Text.ascii ".x") .labelDuplicate) := by
  have predefines :=
    run_predefines Formula.evaluate [] (Text.ascii "x") 7
  have success := (predefines.accepted none).2
    ⟨⟨.identifier, 1, Text.ascii "x"⟩, ⟨.endOfText, 1, []⟩,
      by decide +kernel, rfl, rfl, rfl⟩
  have reads := predefines.remembered success [.setWidth .word]
    (by simp) namedByte
  refine ⟨success, ?_⟩
  have settings : (initial.run Formula.evaluate
      [.predefine (Text.ascii "x") 7, .setWidth .word]).2.settings =
        ⟨.word, (∅ : Table Int64).insert (Text.ascii "x") 7⟩ := rfl
  refine (reads.declared (by rw [List.nil_append, settings]; rfl)
    [.instruction ⟨1, .data [.constant 5]⟩] 2 [] ?_).trans ?_
  · rw [List.nil_append, settings]
    decide +kernel
  · rw [List.nil_append, settings]
    rfl

end Session

end FlatAsm
