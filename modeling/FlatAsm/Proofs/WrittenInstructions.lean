import FlatAsm.Proofs.ConstantNames
import FlatAsm.Proofs.EncodableInstructions
import FlatAsm.Proofs.LineAnswers
import FlatAsm.Proofs.WrittenTokens

/-!
# Instructions in writing

An instruction can be written out, and what is written can be parsed.  For an
instruction that a parser has handed out this leads back to where it started,
provided that its values can be written as expressions: a label is never
multiplied there, and the lowest number is not the negative of any other.

A reversed instruction is written with the name of its reverse opcode, which
is no mnemonic, and data without items has nothing to be written.
-/

namespace FlatAsm

open TokenStream (Reads wordToken numberToken markToken)

variable {evaluator : Option Evaluator} {constants : Table Int64}
  {line : Int}

/-! ## The parts of a sum as values -/

namespace SymInt

variable {value : SymInt}

/-- A multiple of a label. -/
def ofTerm (term : Text × Int64) : SymInt :=
  ⟨0, Table.empty.insert term.1 term.2⟩

theorem coefficient_ofTerm (term : Text × Int64) (label : Text) :
    (ofTerm term).coefficient label =
      if label = term.1 then term.2 else 0 := by
  rw [coefficient, ofTerm, Table.find?_insert]
  split <;> rfl

theorem reduced_ofTerm {term : Text × Int64} (nonzero : term.2 ≠ 0) :
    (ofTerm term).Reduced := by
  intro entry member
  rw [List.mem_singleton.1 member]
  exact nonzero

theorem neg_symbol (label : Text) :
    (symbol label).neg = ofTerm (label, -1) := by
  have negative := hasForm_neg (symbol label)
  refine eq_of_reduced negative.reduced (reduced_ofTerm ?_) ?_
    fun other => ?_
  · exact (by decide : (-1 : Int64) ≠ 0)
  · exact negative.base_eq.trans Int64.neg_zero
  · rw [negative.coefficient_eq, coefficient_ofTerm, coefficient_symbol]
    split <;> rfl

theorem neg_constant (number : Int64) :
    (constant number).neg = constant (-number) := by
  have negative := hasForm_neg (constant number)
  refine eq_of_reduced negative.reduced (reduced_constant _)
    negative.base_eq fun label => ?_
  rw [negative.coefficient_eq, coefficient_constant, coefficient_constant,
    Int64.neg_zero]

/-- Adding terms leaves the base and adds the coefficients. -/
theorem hasForm_foldl_add {terms : List (Text × Int64)}
    (sorted : KeysSorted terms) {sum : SymInt}
    (reduced : sum.Reduced) :
    ((terms.map ofTerm).foldl add sum).HasForm sum.base fun label =>
      sum.coefficient label +
        (Table.findAmong? label terms).getD 0 := by
  induction terms generalizing sum with
  | nil =>
      refine ⟨reduced, rfl, fun label => ?_⟩
      exact (Int64.add_zero _).symm
  | cons term rest inductionHypothesis =>
      obtain ⟨above, sorted⟩ := List.pairwise_cons.1 sorted
      have joined := hasForm_add sum (ofTerm term)
      have later := inductionHypothesis sorted joined.reduced
      refine ⟨later.reduced, ?_, fun label => ?_⟩
      · rw [← Int64.add_zero sum.base]
        exact later.base_eq.trans joined.base_eq
      · refine (later.coefficient_eq label).trans ?_
        rw [joined.coefficient_eq, coefficient_ofTerm,
          Table.findAmong?_cons]
        split
        · next same =>
          subst same
          rw [Table.findAmong?_eq_none_of_below above]
          exact Int64.add_zero _
        · rw [Int64.add_zero]

/-- What the parts of the sum stand for. -/
def addends (value : SymInt) : List SymInt :=
  value.terms.map ofTerm ++
    if value.base = 0 ∧ value.terms ≠ [] then [] else [constant value.base]

theorem terms_of_reduced (reduced : value.Reduced) :
    value.terms = value.coefficients.entries :=
  List.filter_eq_self.2 fun entry member => by
    simpa using reduced entry member

theorem parts_ne_nil (value : SymInt) : value.parts ≠ [] := by
  rw [parts, baseParts]
  split
  · next someTerms => simp [someTerms.2]
  · simp

/-- A value is the sum of what its parts stand for. -/
theorem foldl_addends (reduced : value.Reduced) :
    value.addends.foldl add (constant 0) = value := by
  have sum := hasForm_foldl_add value.coefficients.sorted
    (reduced_constant 0)
  rw [← terms_of_reduced reduced] at sum
  have coefficients : ∀ label,
      ((value.terms.map ofTerm).foldl add (constant 0)).coefficient label =
        value.coefficient label := by
    intro label
    rw [sum.coefficient_eq, terms_of_reduced reduced]
    exact Int64.zero_add _
  rw [addends, List.foldl_append]
  split
  · next none =>
    exact eq_of_reduced sum.reduced reduced (sum.base_eq.trans none.1.symm)
      coefficients
  · have whole := hasForm_add ((value.terms.map ofTerm).foldl add
      (constant 0)) (constant value.base)
    refine whole.unique (hasForm_of_reduced reduced) ?_ fun label => ?_
    · rw [sum.base_eq]
      exact Int64.zero_add _
    · rw [coefficients]
      exact Int64.add_zero _

end SymInt

/-! ## Expressions in writing -/

namespace Grammar

/-- The text is read as an expression with this value. -/
def Writes (evaluator : Option Evaluator) (constants : Table Int64)
    (line : Int) (value : SymInt) (text : Text) : Prop :=
  ∃ tokens, Reads evaluator line text tokens ∧
    IsExpression constants tokens value

/-- What stands after the sign is read as a term, and this is its value. -/
def Denotes (evaluator : Option Evaluator) (constants : Table Int64)
    (line : Int) (part : SumPart) (value : SymInt) : Prop :=
  ∃ token term, Reads evaluator line part.body [token] ∧
    IsTerm constants [token] term ∧
    value = if part.negative then term.neg else term

variable {value sum : SymInt} {part : SumPart} {text : Text}

theorem Denotes.reduced
    (denotes : Denotes evaluator constants line part value) :
    value.Reduced := by
  obtain ⟨token, term, -, isTerm, rfl⟩ := denotes
  split
  · exact (SymInt.hasForm_neg term).reduced
  · exact Parse.reduced_of_isTerm isTerm

/-- A part alone is written without a plus sign. -/
theorem Denotes.writes
    (denotes : Denotes evaluator constants line part value) :
    Writes evaluator constants line value
      (Text.withoutPlus part.text) := by
  obtain ⟨token, term, reads, isTerm, rfl⟩ := denotes
  cases negative : part.negative with
  | false =>
      have body : Text.withoutPlus part.text = part.body := by
        simp [SumPart.text, SumPart.sign, negative, Text.withoutPlus]
      rw [body]
      exact ⟨_, reads, .term isTerm⟩
  | true =>
      have signed : Text.withoutPlus part.text =
          Mark.minus.byte :: part.body := by
        simp [SumPart.text, SumPart.sign, negative, Text.withoutPlus,
          Mark.byte]
      rw [signed]
      exact ⟨_, reads.mark .minus, .term (.negated rfl isTerm)⟩

/-- A further part is added. -/
theorem Writes.join (earlier : Writes evaluator constants line sum text)
    (denotes : Denotes evaluator constants line part value) :
    Writes evaluator constants line (sum.add value)
      (text ++ part.text) := by
  obtain ⟨front, front_reads, expression⟩ := earlier
  obtain ⟨token, term, reads, isTerm, rfl⟩ := denotes
  cases negative : part.negative with
  | false =>
      have signed : part.text = Mark.plus.byte :: part.body := by
        simp [SumPart.text, SumPart.sign, negative, Mark.byte]
      rw [signed]
      exact ⟨_, front_reads.append (reads.mark .plus)
          (TokenStream.stops_mark .plus _),
        .sum expression rfl isTerm⟩
  | true =>
      have signed : part.text = Mark.minus.byte :: part.body := by
        simp [SumPart.text, SumPart.sign, negative, Mark.byte]
      rw [signed, if_pos rfl, ← SymInt.sub_eq_add_neg]
      exact ⟨_, front_reads.append (reads.mark .minus)
          (TokenStream.stops_mark .minus _),
        .difference expression rfl isTerm⟩

theorem Writes.joinAll {parts : List SumPart} {values : List SymInt}
    (earlier : Writes evaluator constants line sum text)
    (denote : List.Forall₂ (Denotes evaluator constants line) parts
      values) :
    Writes evaluator constants line (values.foldl SymInt.add sum)
      (text ++ parts.flatMap SumPart.text) := by
  induction denote generalizing sum text with
  | nil => simpa using earlier
  | cons first _ inductionHypothesis =>
      rw [List.flatMap_cons, ← List.append_assoc]
      exact inductionHypothesis (earlier.join first)

end Grammar

/-- A value that can be written as an expression. -/
structure SymInt.Expressible (constants : Table Int64) (value : SymInt) :
    Prop where
  names : ∀ label ∈ value.labels, IsLabelName constants label
  units : ∀ entry ∈ value.coefficients.entries,
    entry.2 = 1 ∨ entry.2 = -1
  base_ne : value.base ≠ Int64.minValue

namespace Grammar

theorem denotes_ofTerm {label : Text} {factor : Int64}
    (usable : IsLabelName constants label)
    (unit : factor = 1 ∨ factor = -1) :
    Denotes evaluator constants line (SumPart.ofTerm (label, factor))
      (SymInt.ofTerm (label, factor)) := by
  have body : (SumPart.ofTerm (label, factor)).body = label := by
    simp [SumPart.ofTerm, unit]
  refine ⟨wordToken line label, .symbol label, ?_,
    .label usable.wordKind_eq usable.unknown, ?_⟩
  · rw [body]
    exact TokenStream.reads_word evaluator line usable.isWord
  · rcases unit with rfl | rfl
    · rfl
    · exact (SymInt.neg_symbol label).symm

theorem denotes_ofBase {base : Int64} (base_ne : base ≠ Int64.minValue) :
    Denotes evaluator constants line (SumPart.ofBase base)
      (.constant base) := by
  have zero : (0 : Int64).toInt = 0 := rfl
  have lower := Int64.le_toInt base
  have upper := Int64.toInt_lt base
  have unequal : base.toInt ≠ -2 ^ 63 := fun same =>
    base_ne (Int64.toInt_inj.1 same)
  have small : base.toInt.natAbs < 2 ^ 63 := by omega
  have magnitude : (Int64.ofNat base.toInt.natAbs).toInt =
      base.toInt.natAbs := Int64.toInt_ofNat_of_lt small
  refine ⟨numberToken line base.toInt.natAbs, _,
    TokenStream.reads_number evaluator line small, .integer rfl, ?_⟩
  · simp only [SumPart.ofBase, Int64.lt_iff_toInt_lt, zero,
      decide_eq_true_eq]
    split
    · next negative =>
      have opposite : (base.toInt.natAbs : Int) = -base.toInt := by omega
      rw [SymInt.neg_constant, ← Int64.ofInt_eq_ofNat, opposite,
        Int64.ofInt_neg, Int64.ofInt_toInt, Int64.neg_neg]
    · next positive =>
      congr 1
      rw [← Int64.toInt_inj, magnitude]
      omega

/-- What the parts of an expression stand for. -/
theorem denote_parts {value : SymInt}
    (expressible : value.Expressible constants) :
    List.Forall₂ (Denotes evaluator constants line) value.parts
      value.addends := by
  have terms : List.Forall₂ (Denotes evaluator constants line)
      (value.terms.map SumPart.ofTerm) (value.terms.map SymInt.ofTerm) := by
    rw [List.forall₂_map_left_iff, List.forall₂_map_right_iff,
      List.forall₂_same]
    rintro ⟨label, factor⟩ member
    have entry := (List.mem_filter.1 member).1
    exact denotes_ofTerm
      (expressible.names label (List.mem_map.2 ⟨_, entry, rfl⟩))
      (expressible.units _ entry)
  refine List.rel_append terms ?_
  rw [SymInt.baseParts]
  split
  · exact .nil
  · exact .cons (denotes_ofBase expressible.base_ne) .nil

theorem writes_of_expressible {value : SymInt}
    (expressible : value.Expressible constants) :
    Writes evaluator constants line value value.text := by
  have words : value.InWords := fun label member =>
    (expressible.names label member).isWord
  have reduced : value.Reduced := fun entry member => by
    rcases expressible.units entry member with unit | unit <;>
      rw [unit] <;> decide
  have denote := @denote_parts evaluator constants line value expressible
  have sum := SymInt.foldl_addends reduced
  rw [words.text_eq]
  cases written : value.parts with
  | nil => exact absurd written value.parts_ne_nil
  | cons part parts =>
      rw [written] at denote
      obtain ⟨first, others, here, later, split⟩ :=
        List.forall₂_cons_left_iff.1 denote
      rw [split, List.foldl_cons, SymInt.add_comm,
        SymInt.add_zero here.reduced] at sum
      have whole := here.writes.joinAll later
      rw [sum] at whole
      have nonempty : part.text ≠ [] := List.cons_ne_nil _ _
      rwa [List.flatMap_cons, Text.withoutPlus_append nonempty]

/-! ## Arguments in writing -/

/-- The text is read as this argument. -/
def WritesArgument (evaluator : Option Evaluator) (constants : Table Int64)
    (line : Int) (argument : Argument) (text : Text) : Prop :=
  ∃ tokens, Reads evaluator line text tokens ∧
    IsArgument constants tokens argument

/-- The text is read as these arguments. -/
def WritesArguments (evaluator : Option Evaluator)
    (constants : Table Int64) (line : Int) (arguments : List Argument)
    (text : Text) : Prop :=
  ∃ tokens, Reads evaluator line text tokens ∧
    AreArguments constants tokens arguments

variable {argument : Argument} {arguments : List Argument}
  {text others : Text}

theorem WritesArgument.last
    (writes : WritesArgument evaluator constants line argument text) :
    WritesArguments evaluator constants line [argument] text := by
  obtain ⟨tokens, reads, isArgument⟩ := writes
  exact ⟨tokens, reads, .last isArgument⟩

/-- Arguments are written with a comma and a blank between them. -/
theorem WritesArgument.further
    (writes : WritesArgument evaluator constants line argument text)
    (later : WritesArguments evaluator constants line arguments others) :
    WritesArguments evaluator constants line (argument :: arguments)
      (text ++ Text.ascii ", " ++ others) := by
  obtain ⟨front, frontReads, isArgument⟩ := writes
  obtain ⟨back, backReads, areArguments⟩ := later
  rw [List.append_assoc]
  exact ⟨front ++ markToken line .comma :: back,
    frontReads.append (backReads.blank.mark .comma)
      (TokenStream.stops_mark .comma _),
    .further isArgument rfl areArguments⟩

theorem register_name : ∀ register ∈ Register.all,
    Token.isWord register.name = true ∧
      Token.wordKind register.name = .register register := by
  decide +kernel

theorem writes_register {register : Register}
    (known : register ∈ Register.all) :
    WritesArgument evaluator constants line
      (.operand (.register register)) register.name := by
  obtain ⟨isWord, kind⟩ := register_name register known
  exact ⟨_, TokenStream.reads_word evaluator line isWord, .register kind⟩

/-- The text of an operand is read as the operand. -/
theorem writes_operand {operand : Operand}
    (registers : ∀ register, operand.register? = some register →
      register ∈ Register.all)
    (values : ∀ value, operand.displacement? = some value →
      value.Expressible constants) :
    WritesArgument evaluator constants line (.operand operand)
      operand.text := by
  have closing := TokenStream.Reads.mark .closeBracket
    (@TokenStream.reads_nil evaluator line)
  cases operand with
  | register direct => exact writes_register (registers direct rfl)
  | displacement value =>
      obtain ⟨tokens, reads, expression⟩ :=
        @writes_of_expressible evaluator constants line value
          (values value rfl)
      exact ⟨tokens, reads, .expression expression⟩
  | indirect pointer =>
      obtain ⟨isWord, kind⟩ :=
        register_name pointer (registers pointer rfl)
      have named := closing.word isWord
        (TokenStream.stops_mark .closeBracket [])
      exact ⟨_, named.mark .openBracket, .address (.pointer rfl kind rfl)⟩
  | indirectDisplacement pointer value =>
      obtain ⟨isWord, kind⟩ :=
        register_name pointer (registers pointer rfl)
      obtain ⟨tokens, reads, expression⟩ :=
        @writes_of_expressible evaluator constants line value
          (values value rfl)
      have displaced := (reads.append closing
        (TokenStream.stops_mark .closeBracket [])).mark .colon
      have named := displaced.word isWord
        (TokenStream.stops_mark .colon _)
      refine ⟨markToken line .openBracket :: wordToken line pointer.name ::
          markToken line .colon ::
            (tokens ++ [markToken line .closeBracket]), ?_,
        .address (.registerFirst rfl kind rfl expression rfl)⟩
      rw [Operand.text, List.append_assoc]
      exact named.mark .openBracket

/-- So are the items of data. -/
theorem writes_items {items : List SymInt} (nonempty : items ≠ [])
    (values : ∀ value ∈ items, value.Expressible constants) :
    WritesArguments evaluator constants line
      (items.map fun value => .operand (.displacement value))
      (Text.join (Text.ascii ", ") (items.map SymInt.text)) := by
  induction items with
  | nil => exact absurd rfl nonempty
  | cons value rest inductionHypothesis =>
      obtain ⟨here, later⟩ := List.forall_mem_cons.1 values
      obtain ⟨tokens, reads, expression⟩ :=
        @writes_of_expressible evaluator constants line value here
      have first : WritesArgument evaluator constants line
          (.operand (.displacement value)) value.text :=
        ⟨tokens, reads, .expression expression⟩
      cases rest with
      | nil => simpa [Text.join] using first.last
      | cons next rest =>
          have others := inductionHypothesis (List.cons_ne_nil _ _) later
          have split : Text.join (Text.ascii ", ")
              ((value :: next :: rest).map SymInt.text) =
                value.text ++ Text.ascii ", " ++
                  Text.join (Text.ascii ", ")
                    ((next :: rest).map SymInt.text) :=
            List.intercalate_cons_cons
          rw [split]
          exact first.further others

theorem areData_of_values {items : List SymInt} (nonempty : items ≠ []) :
    AreData (items.map fun value => .operand (.displacement value))
      items := by
  induction items with
  | nil => exact absurd rfl nonempty
  | cons value rest inductionHypothesis =>
      cases rest with
      | nil => exact .last .value
      | cons next rest =>
          exact .further .value (inductionHypothesis (List.cons_ne_nil _ _))

/-! ## Instructions in writing -/

/-- The text is read as an instruction with this operation. -/
def WritesOperation (evaluator : Option Evaluator)
    (constants : Table Int64) (line : Int) (width : Width)
    (operation : Operation) (text : Text) : Prop :=
  ∃ tokens, Reads evaluator line text tokens ∧
    IsStatement width constants tokens (.instruction ⟨line, operation⟩)

/-- The word names the mnemonic. -/
structure IsKeyword (word : Text) (mnemonic : Mnemonic) : Prop where
  isWord : Token.isWord word = true
  kind : Token.wordKind word = .mnemonic mnemonic

variable {width : Width} {operation : Operation} {mnemonic : Mnemonic}
  {word : Text}

/-- Arguments are written after their mnemonic and a blank. -/
theorem WritesArguments.afterKeyword
    (writes : WritesArguments evaluator constants line arguments text)
    (keyword : IsKeyword word mnemonic)
    (suits : Suits width mnemonic arguments operation) :
    WritesOperation evaluator constants line width operation
      (word ++ 0x20 :: text) := by
  obtain ⟨tokens, reads, areArguments⟩ := writes
  exact ⟨wordToken line word :: tokens,
    reads.blank.word keyword.isWord (TokenStream.stops_blank text),
    .instruction keyword.kind (.some areArguments) suits⟩

/-- A single opcode has the name of its mnemonic. -/
theorem opcode_name : ∀ mnemonic ∈ Mnemonic.all,
    mnemonic.category ∈ [Category.jump, .unary, .nullary] →
      Token.isWord mnemonic.opcode.name = true ∧
        Token.wordKind mnemonic.opcode.name = .mnemonic mnemonic := by
  decide +kernel

theorem isKeyword_opcode (known : mnemonic ∈ Mnemonic.all)
    (single : mnemonic.category ∈ [Category.jump, .unary, .nullary]) :
    IsKeyword mnemonic.opcode.name mnemonic :=
  ⟨(opcode_name mnemonic known single).1,
    (opcode_name mnemonic known single).2⟩

/-- The normal opcode of a pair has the name of a mnemonic for the pair. -/
theorem pair_name : ∀ mnemonic ∈ Mnemonic.all,
    mnemonic.category ∈ [Category.step, .reversible] →
      ∃ other ∈ Mnemonic.all, other.category = .reversible ∧
        other.pair = mnemonic.pair ∧
        Token.isWord mnemonic.pair.normal.name = true ∧
        Token.wordKind mnemonic.pair.normal.name = .mnemonic other := by
  decide +kernel

theorem data_name : ∃ mnemonic ∈ Mnemonic.all,
    mnemonic.category = .data ∧
      Token.isWord (Text.ascii "data") = true ∧
      Token.wordKind (Text.ascii "data") = .mnemonic mnemonic := by
  decide +kernel

/-- An operation that has a form in writing which can be parsed. -/
structure IsWritable (constants : Table Int64) (operation : Operation) :
    Prop where
  values : ∀ value ∈ operation.values, value.Expressible constants
  forwards : ∀ pair width left right,
    operation ≠ .reversible pair width left right true
  nonempty : operation ≠ .data []

/-- The text of an operation is read as the operation. -/
theorem writes_operation (ofMachine : operation.OfMachine width)
    (writable : IsWritable constants operation) :
    WritesOperation evaluator constants line width operation
      operation.text := by
  have values := writable.values
  cases ofMachine with
  | @data items =>
      obtain ⟨mnemonic, -, category, isWord, kind⟩ := data_name
      have nonempty : items ≠ [] := by
        rintro rfl
        exact writable.nonempty rfl
      exact (writes_items nonempty values).afterKeyword ⟨isWord, kind⟩
        (.data category (areData_of_values nonempty))
  | @jump mnemonic target known category =>
      have keyword := isKeyword_opcode known (by simp [category])
      have expressible : target.Expressible constants :=
        values target List.mem_cons_self
      have written := @writes_operand evaluator constants line
        (.displacement target) nofun (by rintro _ ⟨⟩; exact expressible)
      exact written.last.afterKeyword keyword (.jump category)
  | @reversible mnemonic own left right reversed known category
      leftOfMachine leftWidth rightOfMachine rightWidth =>
      obtain ⟨other, -, otherCategory, samePair, isWord, kind⟩ :=
        pair_name mnemonic known (by simpa using category)
      subst rightWidth
      cases reversed with
      | true => exact absurd rfl (writable.forwards _ _ _ _)
      | false =>
          have first := @writes_operand evaluator constants line left
            leftOfMachine.registers fun value found =>
              values value (by simp [Operation.values, found])
          have second := @writes_register evaluator constants line right
            rightOfMachine
          have suits : Suits width other
              [.operand left, .operand (.register right)] _ :=
            .registerLast otherCategory leftWidth
          rw [samePair] at suits
          have written := (first.further second.last).afterKeyword
            ⟨isWord, kind⟩ suits
          rw [Operation.text, List.append_assoc, List.append_assoc]
          rwa [List.append_assoc] at written
  | @unary mnemonic own operand known category operandOfMachine
      operandWidth fallback =>
      have keyword := isKeyword_opcode known (by simp [category])
      have written := @writes_operand evaluator constants line operand
        operandOfMachine.registers fun value found =>
          values value (by simp [Operation.values, found])
      refine written.last.afterKeyword keyword ?_
      cases named : operand.register? with
      | none =>
          rw [fallback named]
          exact .unaryUnnamed category named
      | some register =>
          rw [← operandWidth register named]
          exact .unaryNamed category named
  | @nullary mnemonic known category =>
      have keyword := isKeyword_opcode known (by simp [category])
      exact ⟨_, TokenStream.reads_word evaluator line keyword.isWord,
        .instruction keyword.kind .none (.nullary category)⟩

end Grammar

/-! ## Instructions of a parser -/

/-- The labels of an operation are those of its values. -/
theorem Operation.labels_eq (operation : Operation) :
    operation.labels = operation.values.flatMap SymInt.labels := by
  have ofOperand (operand : Operand) :
      operand.labels =
        operand.displacement?.toList.flatMap SymInt.labels := by
    cases operand <;> simp [Operand.labels, Operand.displacement?]
  cases operation with
  | data items => rfl
  | jump opcode width target => simp [labels, values]
  | reversible pair width left right reversed =>
      cases left <;> simp [labels, values, ofOperand]
  | unary opcode width operand =>
      cases operand <;> simp [labels, values, ofOperand]
  | nullary opcode width => rfl

namespace Parser

open Grammar (IsStatement)

variable {width : Width} {text : Text} {item : Item}

/-- A text that is one statement is parsed into one item. -/
theorem delivers_of_isStatement {tokens : List Token} {last : Token}
    (statement : IsStatement width constants tokens item)
    (ended : last.kind = .endOfText) :
    Delivers (ofStream width constants ⟨tokens ++ [last], none⟩) [item]
      none := by
  cases tokens with
  | nil => cases statement
  | cons first line =>
      have inside := statement.inside first List.mem_cons_self
      have notNewline : first.kind ≠ .newline := by
        intro newline
        simp [Grammar.Inside, Token.endsStatement, newline] at inside
      rw [List.cons_append, delivers_ofStream_cons_iff]
      generalize place : (⟨first, line ++ [last], none⟩ : Cursor) = cursor
      have ahead : cursor.ahead = (first :: line) ++ last :: [] := by
        rw [← place]
        rfl
      have skipped : Parse.skipNewlines cursor = .ok () cursor := by
        rw [Parse.skipNewlines_eq, Parse.current_bind, ← place,
          if_neg notNewline]
        rfl
      obtain ⟨after, passed, rfl⟩ := Cursor.exists_passes_of_ahead ahead
      have ends : after.current.endsStatement = true := by
        simp [Token.endsStatement, ended]
      have found := Parse.statementHere_ok_iff.2
        ⟨first :: line, passed, statement, ends⟩
      rw [delivers_started_iff,
        Parse.statement_of_skipNewlines width constants skipped, found]
      exact ⟨[], rfl, delivers_at_end ended⟩

/--
An instruction that a parser has handed out, perhaps after errors, can be
written out and parsed again.  It must not be reversed or be data without
items, and its values must be such that an expression can give them: labels
with coefficients 1 and -1, and a base other than the lowest.
-/
theorem delivers_instruction_text {instruction : Instruction}
    (yielded : (ofText evaluator width constants text).Yields
      (.instruction instruction))
    (forwards : ∀ pair width left right,
      instruction.operation ≠ .reversible pair width left right true)
    (nonempty : instruction.operation ≠ .data [])
    (units : ∀ value ∈ instruction.operation.values,
      ∀ entry ∈ value.coefficients.entries, entry.2 = 1 ∨ entry.2 = -1)
    (bases : ∀ value ∈ instruction.operation.values,
      value.base ≠ Int64.minValue) (other : Option Evaluator) :
    (ofText other width constants instruction.text).Delivers
      [.instruction ⟨1, instruction.operation⟩] none := by
  have writable : Grammar.IsWritable constants instruction.operation := by
    refine ⟨fun value member => ?_, forwards, nonempty⟩
    refine ⟨fun label inValue => ?_, units value member,
      bases value member⟩
    refine yielded.isLabelName label ?_
    rw [Operation.labels_eq]
    exact List.mem_flatMap.2 ⟨value, member, inValue⟩
  have ofMachine : instruction.operation.OfMachine width :=
    yields_ofMachine yielded
  obtain ⟨tokens, reads, statement⟩ :=
    @Grammar.writes_operation other constants 1 width _ ofMachine writable
  rw [ofText, Instruction.text, reads.tokenize_eq]
  exact delivers_of_isStatement statement rfl

/-- A move after a line that is no statement, with a constant `k`. -/
def signedMove : Text :=
  Text.ascii "pop\nMov [b - - k - a : EBX], ecx"

def signedMoveConstants : Table Int64 :=
  Table.empty.insert (Text.ascii "k") (-9223372036854775807)

def signedMoveInstruction : Instruction :=
  ⟨2, .reversible ⟨⟨4⟩, ⟨5⟩⟩ .word
    (some (.indirectDisplacement ⟨1, .word⟩
      ⟨-9223372036854775807,
        (Table.empty.insert (Text.ascii "a") (-1)).insert
          (Text.ascii "b") 1⟩))
    ⟨2, .word⟩ false⟩

theorem signedMove_delivers_text :
    (ofText none .byte signedMoveConstants signedMove).Yields
        (.instruction signedMoveInstruction) ∧
      signedMoveInstruction.text =
        Text.ascii "mov [ebx:-a+b-9223372036854775807], ecx" ∧
      (ofText none .byte signedMoveConstants
        signedMoveInstruction.text).Delivers
          [.instruction ⟨1, signedMoveInstruction.operation⟩] none := by
  have yielded : (ofText none .byte signedMoveConstants signedMove).Yields
      (.instruction signedMoveInstruction) :=
    Reaches.start.next.yields (by decide +kernel)
  refine ⟨yielded, by decide +kernel, ?_⟩
  exact delivers_instruction_text yielded
    (by simp [signedMoveInstruction]) (by simp [signedMoveInstruction])
    (by decide +kernel) (by decide +kernel) none

end Parser

end FlatAsm
