import FlatAsm.Proofs.LabelSubstitution

/-!
# The grammar of statements

What may stand on a line is said here without reference to a parser.  Each
relation below holds between some tokens and what they denote; the parts of
the tokens denote the parts of the result.

Line ends and the end of the text belong to no statement, so all tokens of a
statement stand on its line.
-/

namespace FlatAsm.Grammar

/-! ## Expressions -/

/-- The tokens are an integer or a name under any number of minus signs. -/
inductive IsTerm (constants : Table Int64) :
    List Token → SymInt → Prop where
  | integer {token : Token} {number : Int64}
      (kind : token.kind = .integer number) :
      IsTerm constants [token] (.constant number)
  | constant {token : Token} {number : Int64}
      (kind : token.kind = .identifier)
      (known : constants.find? token.text = some number) :
      IsTerm constants [token] (.constant number)
  | label {token : Token}
      (kind : token.kind = .identifier)
      (unknown : constants.find? token.text = none) :
      IsTerm constants [token] (.symbol token.text)
  | negated {minus : Token} {tokens : List Token} {value : SymInt}
      (sign : minus.kind = .punctuation .minus)
      (inner : IsTerm constants tokens value) :
      IsTerm constants (minus :: tokens) value.neg

/-- The tokens are terms under sums and differences, from left to right. -/
inductive IsExpression (constants : Table Int64) :
    List Token → SymInt → Prop where
  | term {tokens : List Token} {value : SymInt}
      (only : IsTerm constants tokens value) :
      IsExpression constants tokens value
  | sum {front back : List Token} {plus : Token} {left right : SymInt}
      (earlier : IsExpression constants front left)
      (sign : plus.kind = .punctuation .plus)
      (last : IsTerm constants back right) :
      IsExpression constants (front ++ plus :: back) (left.add right)
  | difference {front back : List Token} {minus : Token}
      {left right : SymInt}
      (earlier : IsExpression constants front left)
      (sign : minus.kind = .punctuation .minus)
      (last : IsTerm constants back right) :
      IsExpression constants (front ++ minus :: back) (left.sub right)

/-! ## Arguments -/

/-- The tokens are an address in brackets. -/
inductive IsAddress (constants : Table Int64) :
    List Token → Operand → Prop where
  | pointer {opening register closing : Token} {pointer : Register}
      (opens : opening.kind = .punctuation .openBracket)
      (named : register.kind = .register pointer)
      (closes : closing.kind = .punctuation .closeBracket) :
      IsAddress constants [opening, register, closing] (.indirect pointer)
  | registerFirst {opening register colon closing : Token}
      {pointer : Register} {tokens : List Token} {value : SymInt}
      (opens : opening.kind = .punctuation .openBracket)
      (named : register.kind = .register pointer)
      (divides : colon.kind = .punctuation .colon)
      (displaced : IsExpression constants tokens value)
      (closes : closing.kind = .punctuation .closeBracket) :
      IsAddress constants
        (opening :: register :: colon :: (tokens ++ [closing]))
        (.indirectDisplacement pointer value)
  | registerLast {opening register colon closing : Token}
      {pointer : Register} {tokens : List Token} {value : SymInt}
      (opens : opening.kind = .punctuation .openBracket)
      (displaced : IsExpression constants tokens value)
      (divides : colon.kind = .punctuation .colon)
      (named : register.kind = .register pointer)
      (closes : closing.kind = .punctuation .closeBracket) :
      IsAddress constants
        (opening :: (tokens ++ [colon, register, closing]))
        (.indirectDisplacement pointer value)

/-- The tokens are a string, a register, an address or an expression. -/
inductive IsArgument (constants : Table Int64) :
    List Token → Argument → Prop where
  | string {token : Token} (kind : token.kind = .string) :
      IsArgument constants [token] (.string token.text)
  | register {token : Token} {register : Register}
      (kind : token.kind = .register register) :
      IsArgument constants [token] (.operand (.register register))
  | address {tokens : List Token} {operand : Operand}
      (bracketed : IsAddress constants tokens operand) :
      IsArgument constants tokens (.operand operand)
  | expression {tokens : List Token} {value : SymInt}
      (summed : IsExpression constants tokens value) :
      IsArgument constants tokens (.operand (.displacement value))

/-- The tokens are one or more arguments with commas between them. -/
inductive AreArguments (constants : Table Int64) :
    List Token → List Argument → Prop where
  | last {tokens : List Token} {argument : Argument}
      (only : IsArgument constants tokens argument) :
      AreArguments constants tokens [argument]
  | further {front back : List Token} {comma : Token}
      {argument : Argument} {arguments : List Argument}
      (first : IsArgument constants front argument)
      (divides : comma.kind = .punctuation .comma)
      (others : AreArguments constants back arguments) :
      AreArguments constants (front ++ comma :: back)
        (argument :: arguments)

/-- The tokens are any number of arguments, which may be none. -/
inductive AreOptionalArguments (constants : Table Int64) :
    List Token → List Argument → Prop where
  | none : AreOptionalArguments constants [] []
  | some {tokens : List Token} {arguments : List Argument}
      (given : AreArguments constants tokens arguments) :
      AreOptionalArguments constants tokens arguments

/-! ## Which arguments suit a mnemonic -/

/-- A string stands for all its bytes, and an expression for its value. -/
inductive IsData : Argument → List SymInt → Prop where
  | string {bytes : Text} :
      IsData (.string bytes)
        (bytes.map fun byte => .constant (Int64.ofNat byte.toNat))
  | value {value : SymInt} :
      IsData (.operand (.displacement value)) [value]

/-- The arguments are data, at least one, with these items in order. -/
inductive AreData : List Argument → List SymInt → Prop where
  | last {argument : Argument} {items : List SymInt}
      (only : IsData argument items) : AreData [argument] items
  | further {argument : Argument} {arguments : List Argument}
      {items others : List SymInt}
      (first : IsData argument items)
      (later : AreData arguments others) :
      AreData (argument :: arguments) (items ++ others)

/--
A number of copies of some items that is constant and within limits.

All the items are counted in words of 64 bits, which is exact unless there
are more items than any text has.
-/
structure IsCount (count : SymInt) (items : List SymInt) : Prop where
  constant : count.isConstant = true
  positive : 1 ≤ count.base.toInt
  limited : count.base.toInt ≤ Operation.timesLimit
  total : (count.base * Int64.ofNat items.length).toInt ≤
    Operation.timesLimit

/-- The arguments suit the mnemonic and make the operation. -/
inductive Suits (default : Width) (mnemonic : Mnemonic) :
    List Argument → Operation → Prop where
  | data {arguments : List Argument} {items : List SymInt}
      (category : mnemonic.category = .data)
      (bytes : AreData arguments items) :
      Suits default mnemonic arguments (.data items)
  | step {register : Register} (category : mnemonic.category = .step) :
      Suits default mnemonic [.operand (.register register)]
        (.reversible mnemonic.pair register.width
          (some (.displacement (.constant 1))) register true)
  | jump {target : SymInt} (category : mnemonic.category = .jump) :
      Suits default mnemonic [.operand (.displacement target)]
        (.jump mnemonic.opcode default target)
  | registerLast {left : Operand} {right : Register}
      (category : mnemonic.category = .reversible)
      (sameWidth : left.HasWidth right.width) :
      Suits default mnemonic [.operand left, .operand (.register right)]
        (.reversible mnemonic.pair right.width (some left) right false)
  | registerFirst {left : Operand} {right : Register}
      (category : mnemonic.category = .reversible)
      (notDirect : ∀ direct, left ≠ .register direct)
      (sameWidth : left.HasWidth right.width) :
      Suits default mnemonic [.operand (.register right), .operand left]
        (.reversible mnemonic.pair right.width (some left) right true)
  | unaryNamed {operand : Operand} {register : Register}
      (category : mnemonic.category = .unary)
      (named : operand.register? = some register) :
      Suits default mnemonic [.operand operand]
        (.unary mnemonic.opcode register.width (some operand))
  | unaryUnnamed {operand : Operand}
      (category : mnemonic.category = .unary)
      (unnamed : operand.register? = none) :
      Suits default mnemonic [.operand operand]
        (.unary mnemonic.opcode default (some operand))
  | nullary (category : mnemonic.category = .nullary) :
      Suits default mnemonic [] (.nullary mnemonic.opcode default)

/-! ## Statements -/

/-- The tokens are a whole statement, and say what the item says. -/
inductive IsStatement (default : Width) (constants : Table Int64) :
    List Token → Item → Prop where
  | label {dot name : Token}
      (marked : dot.kind = .punctuation .dot)
      (named : name.kind = .identifier) :
      IsStatement default constants [dot, name]
        (.label dot.line name.text)
  | instruction {keyword : Token} {mnemonic : Mnemonic}
      {tokens : List Token} {arguments : List Argument}
      {operation : Operation}
      (kind : keyword.kind = .mnemonic mnemonic)
      (listed : AreOptionalArguments constants tokens arguments)
      (suits : Suits default mnemonic arguments operation) :
      IsStatement default constants (keyword :: tokens)
        (.instruction ⟨keyword.line, operation⟩)
  | repetition {keyword comma : Token} {mnemonic : Mnemonic}
      {front back : List Token} {count : SymInt}
      {arguments : List Argument} {items : List SymInt}
      (kind : keyword.kind = .mnemonic mnemonic)
      (category : mnemonic.category = .times)
      (counted : IsExpression constants front count)
      (divides : comma.kind = .punctuation .comma)
      (listed : AreOptionalArguments constants back arguments)
      (bytes : AreData arguments items)
      (isCount : IsCount count items) :
      IsStatement default constants (keyword :: (front ++ comma :: back))
        (.instruction ⟨keyword.line,
          .data (List.replicate count.base.toInt.toNat items).flatten⟩)

/-! ## Tokens of a statement -/

/-- The token stands on the line of a statement, and does not end it. -/
def Inside (token : Token) : Prop :=
  token.endsStatement = false

theorem inside_of_kind {token : Token} {kind : Token.Kind}
    (found : token.kind = kind) (notNewline : kind ≠ .newline)
    (notEnd : kind ≠ .endOfText) : Inside token := by
  simp [Inside, Token.endsStatement, found, notNewline, notEnd]

variable {constants : Table Int64}

theorem IsTerm.inside {tokens : List Token} {value : SymInt}
    (term : IsTerm constants tokens value) :
    ∀ token ∈ tokens, Inside token := by
  induction term with
  | integer kind => simp [inside_of_kind kind]
  | constant kind => simp [inside_of_kind kind]
  | label kind => simp [inside_of_kind kind]
  | negated sign _ inductionHypothesis =>
      simpa [inside_of_kind sign] using inductionHypothesis

theorem IsExpression.inside {tokens : List Token} {value : SymInt}
    (expression : IsExpression constants tokens value) :
    ∀ token ∈ tokens, Inside token := by
  induction expression with
  | term only => exact only.inside
  | sum _ sign last inductionHypothesis =>
      have later := last.inside
      grind [inside_of_kind sign]
  | difference _ sign last inductionHypothesis =>
      have later := last.inside
      grind [inside_of_kind sign]

theorem IsAddress.inside {tokens : List Token} {operand : Operand}
    (address : IsAddress constants tokens operand) :
    ∀ token ∈ tokens, Inside token := by
  cases address with
  | pointer opens named closes =>
      simp [inside_of_kind opens, inside_of_kind named,
        inside_of_kind closes]
  | registerFirst opens named divides displaced closes =>
      have displacement := displaced.inside
      grind [inside_of_kind opens, inside_of_kind named,
        inside_of_kind divides, inside_of_kind closes]
  | registerLast opens displaced divides named closes =>
      have displacement := displaced.inside
      grind [inside_of_kind opens, inside_of_kind named,
        inside_of_kind divides, inside_of_kind closes]

theorem IsArgument.inside {tokens : List Token} {argument : Argument}
    (given : IsArgument constants tokens argument) :
    ∀ token ∈ tokens, Inside token := by
  cases given with
  | string kind => simp [inside_of_kind kind]
  | register kind => simp [inside_of_kind kind]
  | address bracketed => exact bracketed.inside
  | expression summed => exact summed.inside

theorem AreArguments.inside {tokens : List Token}
    {arguments : List Argument}
    (given : AreArguments constants tokens arguments) :
    ∀ token ∈ tokens, Inside token := by
  induction given with
  | last only => exact only.inside
  | further first divides _ inductionHypothesis =>
      have earlier := first.inside
      grind [inside_of_kind divides]

theorem AreOptionalArguments.inside {tokens : List Token}
    {arguments : List Argument}
    (given : AreOptionalArguments constants tokens arguments) :
    ∀ token ∈ tokens, Inside token := by
  cases given with
  | none => simp
  | some given => exact given.inside

/-- A statement contains no line end. -/
theorem IsStatement.inside {default : Width} {tokens : List Token}
    {item : Item} (statement : IsStatement default constants tokens item) :
    ∀ token ∈ tokens, Inside token := by
  cases statement with
  | label marked named =>
      simp [inside_of_kind marked, inside_of_kind named]
  | instruction kind listed _ =>
      have later := listed.inside
      simpa [inside_of_kind kind] using later
  | repetition kind _ counted divides listed _ _ =>
      have earlier := counted.inside
      have later := listed.inside
      grind [inside_of_kind kind, inside_of_kind divides]

end FlatAsm.Grammar
