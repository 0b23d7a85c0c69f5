import FlatAsm.Proofs.ItemLines
import FlatAsm.Proofs.ParserNames
import FlatAsm.Proofs.TokenValues

/-!
# Names of constants

A name that has a value stands for this value wherever it is used.  So a
number may be put in its place, and the name need not be known any more.

In particular, the labels of an instruction are names that have no value.
-/

namespace FlatAsm

/-- The token with a number in place of a name that stands for one. -/
def Token.withNumber (known : Table Int64) (token : Token) : Token :=
  if token.kind = .identifier then
    match known.find? token.text with
    | some number => { token with kind := .integer number }
    | none => token
  else token

@[simp]
theorem Token.text_withNumber (known : Table Int64) (token : Token) :
    (token.withNumber known).text = token.text := by
  unfold withNumber
  split <;> [split; skip] <;> rfl

/-- Only names without a value are left. -/
theorem Token.withNumber_eq_identifier_iff {known : Table Int64}
    {token : Token} :
    (token.withNumber known).kind = .identifier ↔
      token.kind = .identifier ∧ known.find? token.text = none := by
  unfold withNumber
  split
  · next name =>
    split
    · next found => simp [found]
    · next absent => simp [absent, name]
  · next other => simp [other]

/-- One table after another: names are looked up in the first one first. -/
def Table.Joins (whole first second : Table Int64) : Prop :=
  ∀ name, whole.find? name = (first.find? name).or (second.find? name)

section

variable {constants known others : Table Int64}

theorem Token.sameMeaning_withNumber
    (joins : constants.Joins known others) (token : Token) :
    SameMeaning constants others token (token.withNumber known) := by
  have looked := joins token.text
  unfold withNumber
  split
  · next name =>
    split
    · next number found =>
      rw [found, Option.some_or] at looked
      refine ⟨rfl, ?_, fun plain => ?_, fun _ => rfl⟩
      · simp [Parse.partValue?, Parse.nameValue, name, looked]
      · rw [name] at plain
        cases plain
    · next absent =>
      rw [absent, Option.none_or] at looked
      refine ⟨rfl, ?_, fun _ => rfl, fun _ => rfl⟩
      simp [Parse.partValue?, Parse.nameValue, name, looked]
  · next other =>
    refine ⟨rfl, ?_, fun _ => rfl, fun _ => rfl⟩
    unfold Parse.partValue?
    cases kind : token.kind
    case identifier => exact absurd kind other
    all_goals rfl

namespace Grammar

variable {tokens : List Token}

theorem sameMeanings_withNumber (joins : constants.Joins known others)
    (tokens : List Token) :
    SameMeanings constants others tokens
      (tokens.map (Token.withNumber known)) := by
  rw [SameMeanings, List.forall₂_map_right_iff]
  exact List.forall₂_same.2 fun token _ =>
    Token.sameMeaning_withNumber joins token

/-- In an expression a name means what a number in its place means. -/
theorem IsExpression.withNumber_iff (joins : constants.Joins known others)
    {value : SymInt} :
    IsExpression others (tokens.map (Token.withNumber known)) value ↔
      IsExpression constants tokens value := by
  have same := sameMeanings_withNumber joins tokens
  constructor
  · intro replaced
    exact replaced.of_sameMeanings (same.flip.imp fun _ _ => .symm)
  · exact fun expression => expression.of_sameMeanings same

/-- So it does in an instruction. -/
theorem IsStatement.withNumber_iff (joins : constants.Joins known others)
    {default : Width} {instruction : Instruction} :
    IsStatement default others (tokens.map (Token.withNumber known))
        (.instruction instruction) ↔
      IsStatement default constants tokens (.instruction instruction) := by
  have same := sameMeanings_withNumber joins tokens
  constructor
  · intro replaced
    exact replaced.of_sameMeanings (same.flip.imp fun _ _ => .symm)
  · exact fun statement => statement.of_sameMeanings same

theorem mem_names_withNumber {name : Text} :
    name ∈ names (tokens.map (Token.withNumber known)) ↔
      name ∈ names tokens ∧ known.find? name = none := by
  induction tokens with
  | nil => simp [names]
  | cons token rest inductionHypothesis =>
      rw [List.map_cons, mem_names_cons, mem_names_cons,
        inductionHypothesis, Token.withNumber_eq_identifier_iff,
        Token.text_withNumber]
      grind

/-- The labels of an instruction are names without a value. -/
theorem IsStatement.find?_of_mem_labels {default : Width}
    {instruction : Instruction}
    (statement :
      IsStatement default constants tokens (.instruction instruction))
    {label : Text} (member : label ∈ instruction.operation.labels) :
    label ∈ names tokens ∧ constants.find? label = none := by
  have joins : constants.Joins constants ∅ := fun name => by simp
  have replaced := (withNumber_iff joins).2 statement
  exact mem_names_withNumber.1 (replaced.labels_subset member)

end Grammar

end

/-! ## Labels that a parser hands out -/

/-- The name can be used for a label. -/
structure IsLabelName (constants : Table Int64) (name : Text) : Prop where
  definable : Assembler.isDefinable name = true
  unknown : constants.find? name = none

theorem IsLabelName.isWord {constants : Table Int64} {name : Text}
    (usable : IsLabelName constants name) : Token.isWord name = true := by
  have definable := usable.definable
  simp only [Assembler.isDefinable, Bool.and_eq_true] at definable
  exact definable.1.1

theorem IsLabelName.wordKind_eq {constants : Table Int64} {name : Text}
    (usable : IsLabelName constants name) :
    Token.wordKind name = .identifier := by
  have definable := usable.definable
  simp only [Assembler.isDefinable, Bool.and_eq_true,
    Option.isNone_iff_eq_none] at definable
  exact Token.wordKind_eq_identifier_iff.2
    ⟨definable.1.2, definable.2⟩

namespace Parser

open Grammar (names IsStatement)

variable {evaluator : Option Evaluator} {width : Width}
  {constants : Table Int64} {text : Text} {item : Item}

/-- Whatever is asked of a parser of a text, it stays within its tokens. -/
theorem Reaches.within {parser : Parser}
    (reached : (ofText evaluator width constants text).Reaches parser) :
    parser.Within width constants (tokenize evaluator text).tokens
      fun _ => True := by
  induction reached with
  | start => exact .fresh rfl List.infix_rfl fun _ _ _ => trivial
  | next _ inductionHypothesis => exact inductionHypothesis.next
  | close _ inductionHypothesis => exact inductionHypothesis.close

/-- Whatever a parser of a text hands out stands in the text. -/
theorem Yields.exists_statement
    (yielded : (ofText evaluator width constants text).Yields item) :
    ∃ tokens, tokens <:+: (tokenize evaluator text).tokens ∧
      IsStatement width constants tokens item := by
  obtain ⟨parser, reached, given⟩ := yielded
  have ordered := (TokenStream.readFrom_tokenize evaluator text).precedes
  obtain ⟨⟨token, -, opened⟩, -⟩ := reached.within.item ordered given
  obtain ⟨others, part, statement⟩ := opened.statement
  exact ⟨token :: others, part, statement⟩

theorem Yields.isLabelName {instruction : Instruction}
    (yielded : (ofText evaluator width constants text).Yields
      (.instruction instruction)) :
    ∀ label ∈ instruction.operation.labels,
      IsLabelName constants label := by
  intro label member
  obtain ⟨tokens, part, statement⟩ := yielded.exists_statement
  obtain ⟨inTokens, unknown⟩ := statement.find?_of_mem_labels member
  have inText : label ∈ names (tokenize evaluator text).tokens :=
    List.map_subset _ (part.filter _).subset inTokens
  exact ⟨isDefinable_of_mem_names_tokenize inText, unknown⟩

end Parser

end FlatAsm
