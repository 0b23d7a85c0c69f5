import FlatAsm.Proofs.ArgumentGrammar
import Mathlib.Data.List.Forall2

/-!
# What tokens contribute to an instruction

Integers and names take part in an instruction with their values only.  So
tokens may be exchanged for others with the same values, which may also be
read with other constants, and the instruction stays the same.
-/

namespace FlatAsm

open Parse (partValue?)

namespace Token

/-- Does a token of the class have a value? -/
def Kind.hasValue : Kind → Bool
  | .integer _ | .identifier => true
  | _ => false

theorem partValue?_eq_none_iff {constants : Table Int64} {token : Token} :
    partValue? constants token = none ↔ token.kind.hasValue = false := by
  rcases token with ⟨kind, line, text⟩
  cases kind
  case integer => exact iff_of_false nofun nofun
  case identifier => exact iff_of_false nofun nofun
  all_goals exact iff_of_true rfl rfl

/--
The tokens have the same value, each under its own constants, or else are
equal in what an instruction is made of.
-/
structure SameMeaning (constants others : Table Int64)
    (token other : Token) : Prop where
  line : other.line = token.line
  value : partValue? others other = partValue? constants token
  kind : token.kind.hasValue = false → other.kind = token.kind
  text : token.kind = .string → other.text = token.text

namespace SameMeaning

variable {constants others : Table Int64} {token other : Token}

theorem kind_eq {kind : Kind}
    (same : SameMeaning constants others token other)
    (found : token.kind = kind) (plain : kind.hasValue = false) :
    other.kind = kind := by
  rw [same.kind (by rw [found, plain]), found]

theorem symm (same : SameMeaning constants others token other) :
    SameMeaning others constants other token where
  line := same.line.symm
  value := same.value.symm
  kind plain := by
    rw [← @partValue?_eq_none_iff others, same.value,
      partValue?_eq_none_iff] at plain
    exact (same.kind plain).symm
  text isString := by
    have plain : other.kind.hasValue = false := by rw [isString]; rfl
    rw [← @partValue?_eq_none_iff others, same.value,
      partValue?_eq_none_iff] at plain
    exact (same.text ((same.kind plain).symm.trans isString)).symm

end SameMeaning

end Token

/-- Lists of tokens that have the same meaning one by one. -/
abbrev SameMeanings (constants others : Table Int64) :
    List Token → List Token → Prop :=
  List.Forall₂ (Token.SameMeaning constants others)

theorem SameMeanings.exists_of_append {constants others : Table Int64}
    {front back tokens : List Token}
    (same : SameMeanings constants others (front ++ back) tokens) :
    ∃ front' back', tokens = front' ++ back' ∧
      SameMeanings constants others front front' ∧
      SameMeanings constants others back back' := by
  induction front generalizing tokens with
  | nil => exact ⟨[], tokens, rfl, .nil, same⟩
  | cons token front inductionHypothesis =>
      cases same with
      | @cons _ other _ rest first later =>
          obtain ⟨front', back', rfl, front, back⟩ :=
            inductionHypothesis later
          exact ⟨other :: front', back', rfl, .cons first front, back⟩

namespace Grammar

variable {constants others : Table Int64} {tokens tokens' : List Token}

theorem IsTerm.of_partValue? {token other : Token} {value : SymInt}
    (found : partValue? constants token = some value)
    (same : Token.SameMeaning constants others token other) :
    IsTerm others [other] value :=
  Parse.isTerm_of_partValue? (same.value.trans found)

theorem IsTerm.of_sameMeanings {value : SymInt}
    (term : IsTerm constants tokens value)
    (same : SameMeanings constants others tokens tokens') :
    IsTerm others tokens' value := by
  induction term generalizing tokens' with
  | integer kind =>
      rcases same with _ | ⟨first, _ | _⟩
      exact .of_partValue? (by rw [partValue?, kind]) first
  | constant kind known =>
      rcases same with _ | ⟨first, _ | _⟩
      exact .of_partValue?
        (by simp [partValue?, kind, Parse.nameValue, known]) first
  | label kind unknown =>
      rcases same with _ | ⟨first, _ | _⟩
      exact .of_partValue?
        (by simp [partValue?, kind, Parse.nameValue, unknown]) first
  | negated sign _ inductionHypothesis =>
      rcases same with _ | ⟨first, rest⟩
      exact .negated (first.kind_eq sign rfl) (inductionHypothesis rest)

theorem IsExpression.of_sameMeanings {value : SymInt}
    (expression : IsExpression constants tokens value)
    (same : SameMeanings constants others tokens tokens') :
    IsExpression others tokens' value := by
  induction expression generalizing tokens' with
  | term only => exact .term (only.of_sameMeanings same)
  | sum _ sign last inductionHypothesis =>
      obtain ⟨front, back, rfl, earlier, later⟩ := same.exists_of_append
      rcases later with _ | ⟨plus, back⟩
      exact .sum (inductionHypothesis earlier) (plus.kind_eq sign rfl)
        (last.of_sameMeanings back)
  | difference _ sign last inductionHypothesis =>
      obtain ⟨front, back, rfl, earlier, later⟩ := same.exists_of_append
      rcases later with _ | ⟨minus, back⟩
      exact .difference (inductionHypothesis earlier)
        (minus.kind_eq sign rfl) (last.of_sameMeanings back)

theorem IsAddress.of_sameMeanings {operand : Operand}
    (address : IsAddress constants tokens operand)
    (same : SameMeanings constants others tokens tokens') :
    IsAddress others tokens' operand := by
  cases address with
  | pointer opens named closes =>
      rcases same with _ | ⟨opening, _ | ⟨register, _ | ⟨closing, _ | _⟩⟩⟩
      exact .pointer (opening.kind_eq opens rfl)
        (register.kind_eq named rfl) (closing.kind_eq closes rfl)
  | registerFirst opens named divides displaced closes =>
      rcases same with _ | ⟨opening, _ | ⟨register, _ | ⟨colon, later⟩⟩⟩
      obtain ⟨inner, last, rfl, inside, ending⟩ :=
        SameMeanings.exists_of_append later
      rcases ending with _ | ⟨closing, _ | _⟩
      exact .registerFirst (opening.kind_eq opens rfl)
        (register.kind_eq named rfl) (colon.kind_eq divides rfl)
        (displaced.of_sameMeanings inside) (closing.kind_eq closes rfl)
  | registerLast opens displaced divides named closes =>
      rcases same with _ | ⟨opening, later⟩
      obtain ⟨inner, last, rfl, inside, ending⟩ :=
        SameMeanings.exists_of_append later
      rcases ending with _ | ⟨colon, _ | ⟨register, _ | ⟨closing, _ | _⟩⟩⟩
      exact .registerLast (opening.kind_eq opens rfl)
        (displaced.of_sameMeanings inside) (colon.kind_eq divides rfl)
        (register.kind_eq named rfl) (closing.kind_eq closes rfl)

theorem IsArgument.of_sameMeanings {argument : Argument}
    (given : IsArgument constants tokens argument)
    (same : SameMeanings constants others tokens tokens') :
    IsArgument others tokens' argument := by
  cases given with
  | string kind =>
      rcases same with _ | ⟨first, _ | _⟩
      rw [← first.text kind]
      exact .string (first.kind_eq kind rfl)
  | register kind =>
      rcases same with _ | ⟨first, _ | _⟩
      exact .register (first.kind_eq kind rfl)
  | address bracketed => exact .address (bracketed.of_sameMeanings same)
  | expression summed => exact .expression (summed.of_sameMeanings same)

theorem AreArguments.of_sameMeanings {arguments : List Argument}
    (given : AreArguments constants tokens arguments)
    (same : SameMeanings constants others tokens tokens') :
    AreArguments others tokens' arguments := by
  induction given generalizing tokens' with
  | last only => exact .last (only.of_sameMeanings same)
  | further first divides _ inductionHypothesis =>
      obtain ⟨front, back, rfl, earlier, later⟩ := same.exists_of_append
      rcases later with _ | ⟨comma, back⟩
      exact .further (first.of_sameMeanings earlier)
        (comma.kind_eq divides rfl) (inductionHypothesis back)

theorem AreOptionalArguments.of_sameMeanings {arguments : List Argument}
    (given : AreOptionalArguments constants tokens arguments)
    (same : SameMeanings constants others tokens tokens') :
    AreOptionalArguments others tokens' arguments := by
  cases given with
  | none =>
      cases same
      exact .none
  | some given => exact .some (given.of_sameMeanings same)

/-- An instruction is made of the meanings of its tokens. -/
theorem IsStatement.of_sameMeanings {default : Width}
    {instruction : Instruction}
    (statement :
      IsStatement default constants tokens (.instruction instruction))
    (same : SameMeanings constants others tokens tokens') :
    IsStatement default others tokens' (.instruction instruction) := by
  cases statement with
  | instruction kind listed suits =>
      rcases same with _ | ⟨keyword, arguments⟩
      rw [← keyword.line]
      exact .instruction (keyword.kind_eq kind rfl)
        (listed.of_sameMeanings arguments) suits
  | repetition kind category counted divides listed bytes isCount =>
      rcases same with _ | ⟨keyword, arguments⟩
      obtain ⟨front, back, rfl, earlier, later⟩ :=
        SameMeanings.exists_of_append arguments
      rcases later with _ | ⟨comma, back⟩
      rw [← keyword.line]
      exact .repetition (keyword.kind_eq kind rfl) category
        (counted.of_sameMeanings earlier) (comma.kind_eq divides rfl)
        (listed.of_sameMeanings back) bytes isCount

end Grammar

end FlatAsm
