import FlatAsm.Proofs.ExpressionMeaning
import FlatAsm.Proofs.PredefinedNames
import FlatAsm.Proofs.RepeatedData
import FlatAsm.Proofs.WrittenInstructions

/-!
# The values of data

Data is written byte by byte, one for each expression, and a line of data may
be repeated.  Expressions are computed in words of 64 bits.  So a byte, or
the number of copies, is what its expression amounts to modulo 2⁶⁴, and it is
the exact value if and only if this value fits into a word.

That it fits is not checked: an expression may wrap around to a byte.
-/

namespace FlatAsm

/-! ## Words and numbers -/

/-- The result is the number, as far as a word can hold it. -/
structure Wraps (number result : Int) : Prop where
  congruent : (2 ^ 64 : Int) ∣ number - result
  exact_iff : number = result ↔ -2 ^ 63 ≤ number ∧ number < 2 ^ 63

theorem wraps_toInt_ofInt (number : Int) :
    Wraps number (Int64.ofInt number).toInt := by
  have lower := (Int64.ofInt number).le_toInt
  have upper := (Int64.ofInt number).toInt_lt
  rw [Int64.toInt_ofInt] at lower upper ⊢
  refine ⟨Int.dvd_self_sub_bmod, ?_⟩
  constructor
  · intro same
    rw [← same] at lower upper
    exact ⟨lower, upper⟩
  · rintro ⟨atLeast, below⟩
    have size : (Int64.size : Int) = 2 ^ 64 := rfl
    exact (Int.bmod_eq_of_le (by omega) (by omega)).symm

/-- The lowest byte of a word. -/
def byteOf (number : Int64) : UInt8 :=
  number.toUInt64.toUInt8

theorem toNat_byteOf {number : Int64} (isByte : IsByte number) :
    ((byteOf number).toNat : Int) = number.toInt := by
  obtain ⟨atLeast, atMost⟩ := isByte
  have signed : number.toInt =
      if 2 * number.toUInt64.toNat < 2 ^ 64 then
        (number.toUInt64.toNat : Int)
      else number.toUInt64.toNat - (2 ^ 64 : Nat) :=
    BitVec.toInt_eq_toNat_cond number.toUInt64.toBitVec
  have bound := number.toUInt64.toNat_lt
  rw [byteOf, UInt64.toNat_toUInt8]
  split at signed <;> omega

theorem byteOf_ofNat (byte : UInt8) :
    byteOf (Int64.ofNat byte.toNat) = byte := by
  apply UInt8.toNat_inj.1
  have bound := byte.toNat_lt
  simp [byteOf]

/-- If there is an item, then an operation has been made. -/
theorem Operation.eq_of_answer {line : Int} {mnemonic : Mnemonic}
    {made : Except Cause Operation} {item : Item}
    (answer : Operation.answer line mnemonic made = .ok (some item)) :
    ∃ operation, made = .ok operation ∧
      item = .instruction ⟨line, operation⟩ := by
  cases made with
  | error cause => cases answer
  | ok operation =>
      cases answer
      exact ⟨operation, rfl, rfl⟩

namespace Grammar

/-! ## Lines of data -/

/-- A part of data: the bytes of a string, or the value of an expression. -/
inductive Datum where
  | string (bytes : Text)
  | value (chain : Chain)

/-- The tokens spell a part of data. -/
inductive Datum.SpelledBy : Datum → List Token → Prop where
  | string {token : Token} (kind : token.kind = .string) :
      SpelledBy (.string token.text) [token]
  | value {chain : Chain} {tokens : List Token}
      (spelled : chain.SpelledBy tokens) :
      SpelledBy (.value chain) tokens

/-- The tokens spell data, with commas between its parts. -/
inductive SpellData : List Datum → List Token → Prop where
  | last {datum : Datum} {tokens : List Token}
      (only : datum.SpelledBy tokens) : SpellData [datum] tokens
  | further {datum : Datum} {data : List Datum} {front back : List Token}
      {comma : Token} (first : datum.SpelledBy front)
      (divides : comma.kind = .punctuation .comma)
      (others : SpellData data back) :
      SpellData (datum :: data) (front ++ comma :: back)

/-- Data on a line, and how often it is repeated if the line says so. -/
structure DataLine where
  count : Option Chain
  data : List Datum

/-- The tokens spell the line. -/
inductive DataLine.SpelledBy : DataLine → List Token → Prop where
  | once {keyword : Token} {mnemonic : Mnemonic} {data : List Datum}
      {tokens : List Token} (kind : keyword.kind = .mnemonic mnemonic)
      (category : mnemonic.category = .data)
      (spelled : SpellData data tokens) :
      SpelledBy ⟨none, data⟩ (keyword :: tokens)
  | repeated {keyword comma : Token} {mnemonic : Mnemonic}
      {count : Chain} {data : List Datum} {front back : List Token}
      (kind : keyword.kind = .mnemonic mnemonic)
      (category : mnemonic.category = .times)
      (counted : count.SpelledBy front)
      (divides : comma.kind = .punctuation .comma)
      (spelled : SpellData data back) :
      SpelledBy ⟨some count, data⟩ (keyword :: (front ++ comma :: back))

/-! ## What is written for a line -/

/-- The number of a name: its constant, else its address, else any one. -/
def numberOf (constants : Table Int64) (addresses : Table Int)
    (others : Text → Int) (name : Text) : Int :=
  match constants.find? name with
  | some number => number.toInt
  | none => (addresses.find? name).getD (others name)

section

-- how a value is to agree with what is written for it
variable (agree : Int → Int → Prop) (constants : Table Int64)
  (addresses : Table Int)

/-- The bytes are written for a part of data. -/
inductive Datum.Emits : Datum → List UInt8 → Prop where
  | string {bytes : Text} : Emits (.string bytes) bytes
  | value {chain : Chain} {byte : UInt8}
      (agrees : ∀ others,
        agree (chain.value (numberOf constants addresses others))
          byte.toNat) :
      Emits (.value chain) [byte]

/-- The number of copies is that of a line. -/
def DataLine.IsRepeated (line : DataLine) (copies : Nat) : Prop :=
  match line.count with
  | none => copies = 1
  | some count => 1 ≤ copies ∧ copies ≤ 2 ^ 20 ∧ ∀ others,
      agree (count.value (numberOf constants addresses others)) copies

/-- The bytes are written for a line. -/
def DataLine.Emits (line : DataLine) (bytes : List UInt8) : Prop :=
  ∃ copies pieces,
    bytes = (List.replicate copies (List.flatten pieces)).flatten ∧
    line.IsRepeated agree constants addresses copies ∧
    List.Forall₂ (Datum.Emits agree constants addresses) line.data pieces

end

/-! ## From tokens to items -/

variable {constants : Table Int64} {tokens : List Token}

/-- The argument that a part of data is read as. -/
def Datum.argument (constants : Table Int64) : Datum → Argument
  | .string bytes => .string bytes
  | .value chain => .operand (.displacement (chain.symbolic constants))

/-- The items that a part of data stands for. -/
def Datum.items (constants : Table Int64) (datum : Datum) : List SymInt :=
  (datum.argument constants).spread

theorem Datum.SpelledBy.isArgument {datum : Datum}
    (spelled : datum.SpelledBy tokens) :
    IsArgument constants tokens (datum.argument constants) := by
  cases spelled with
  | string kind => exact .string kind
  | value spelled => exact .expression spelled.isExpression

theorem SpellData.areArguments {data : List Datum}
    (spelled : SpellData data tokens) :
    AreArguments constants tokens
      (data.map (Datum.argument constants)) := by
  induction spelled with
  | last only => exact .last only.isArgument
  | further first divides _ inductionHypothesis =>
      exact .further first.isArgument divides inductionHypothesis

theorem SpellData.areData {data : List Datum}
    (spelled : SpellData data tokens) :
    AreData (data.map (Datum.argument constants))
      (data.flatMap (Datum.items constants)) := by
  have listed := @areArguments constants tokens data spelled
  have bytes := areData_spread listed.ne_nil fun argument member => by
    obtain ⟨datum, -, rfl⟩ := List.mem_map.1 member
    cases datum <;> trivial
  rwa [List.flatMap_map] at bytes

theorem IsTerm.exists_spelledBy {value : SymInt}
    (term : IsTerm constants tokens value) :
    ∃ written : Term, written.SpelledBy tokens := by
  induction term with
  | integer kind => exact ⟨_, .integer kind⟩
  | constant kind => exact ⟨_, .name kind⟩
  | label kind => exact ⟨_, .name kind⟩
  | negated sign _ inductionHypothesis =>
      obtain ⟨inner, spelled⟩ := inductionHypothesis
      exact ⟨_, .negated sign spelled⟩

/-- All expressions are chains. -/
theorem IsExpression.exists_spelledBy {value : SymInt}
    (expression : IsExpression constants tokens value) :
    ∃ chain : Chain, chain.SpelledBy tokens := by
  induction expression with
  | term only =>
      obtain ⟨_, spelled⟩ := only.exists_spelledBy
      exact ⟨_, .term spelled⟩
  | sum _ sign last inductionHypothesis =>
      obtain ⟨_, first⟩ := inductionHypothesis
      obtain ⟨_, second⟩ := last.exists_spelledBy
      exact ⟨_, .sum first sign second⟩
  | difference _ sign last inductionHypothesis =>
      obtain ⟨_, first⟩ := inductionHypothesis
      obtain ⟨_, second⟩ := last.exists_spelledBy
      exact ⟨_, .difference first sign second⟩

theorem IsArgument.exists_spelledBy {argument : Argument}
    {items : List SymInt} (given : IsArgument constants tokens argument)
    (isData : IsData argument items) :
    ∃ datum : Datum, datum.SpelledBy tokens := by
  cases given with
  | string kind => exact ⟨_, .string kind⟩
  | register => cases isData
  | address bracketed => cases bracketed <;> cases isData
  | expression summed =>
      obtain ⟨_, spelled⟩ := summed.exists_spelledBy
      exact ⟨_, .value spelled⟩

theorem AreArguments.exists_spellData {arguments : List Argument}
    {items : List SymInt}
    (given : AreArguments constants tokens arguments)
    (areData : AreData arguments items) :
    ∃ data, SpellData data tokens := by
  induction given generalizing items with
  | last only =>
      cases areData with
      | last isData =>
          obtain ⟨_, spelled⟩ := only.exists_spelledBy isData
          exact ⟨_, .last spelled⟩
      | further _ later => cases later
  | further first divides others inductionHypothesis =>
      cases areData with
      | last => cases others
      | further isData later =>
          obtain ⟨_, spelled⟩ := first.exists_spelledBy isData
          obtain ⟨_, further⟩ := inductionHypothesis later
          exact ⟨_, .further spelled divides further⟩

theorem AreOptionalArguments.exists_spellData {arguments : List Argument}
    {items : List SymInt}
    (given : AreOptionalArguments constants tokens arguments)
    (areData : AreData arguments items) :
    ∃ data, SpellData data tokens := by
  cases given with
  | none => cases areData
  | some given => exact given.exists_spellData areData

variable {default : Width} {keyword : Token} {mnemonic : Mnemonic}
  {item : Item}

/-- A statement with the keyword of data is a line of data. -/
theorem IsStatement.exists_dataLine
    (statement : IsStatement default constants (keyword :: tokens) item)
    (kind : keyword.kind = .mnemonic mnemonic)
    (category : mnemonic.category = .data ∨ mnemonic.category = .times) :
    ∃ written : DataLine, written.SpelledBy (keyword :: tokens) := by
  cases statement with
  | label marked => rw [marked] at kind; cases kind
  | instruction same listed suits =>
      cases Token.Kind.mnemonic.inj (same.symm.trans kind)
      cases suits with
      | data isData bytes =>
          obtain ⟨_, spelled⟩ := listed.exists_spellData bytes
          exact ⟨_, .once kind isData spelled⟩
      | step other | jump other | registerLast other | registerFirst other
      | unaryNamed other | unaryUnnamed other | nullary other =>
          simp [other] at category
  | repetition same category counted divides listed bytes =>
      obtain ⟨_, spelled⟩ := counted.exists_spelledBy
      obtain ⟨_, further⟩ := listed.exists_spellData bytes
      exact ⟨_, .repeated same category spelled divides further⟩

/-- A statement is what some parser answers to its line. -/
theorem IsStatement.exists_faces
    (statement : IsStatement default constants tokens item) :
    ∃ parser : Parser, parser.width = default ∧
      parser.constants = constants ∧ parser.Faces tokens ∧
      parser.next.1 = .ok (some item) := by
  let last : Token := ⟨.endOfText, 1, []⟩
  have delivered := @Parser.delivers_of_isStatement constants default item
    tokens last statement rfl
  cases delivered with
  | item given =>
      exact ⟨_, rfl, rfl, ⟨[], last, [], rfl, nofun, rfl⟩, given⟩

/-- The items on a line, before they are repeated. -/
def DataLine.items (constants : Table Int64) (line : DataLine) :
    List SymInt :=
  line.data.flatMap (Datum.items constants)

/-- The count of a line, as a parser finds it. -/
def DataLine.Counts (constants : Table Int64) (line : DataLine)
    (copies : Nat) : Prop :=
  match line.count with
  | none => copies = 1
  | some count =>
      (count.symbolic constants).isConstant = true ∧ 1 ≤ copies ∧
        copies ≤ 2 ^ 20 ∧ (count.symbolic constants).base.toInt = copies

theorem DataLine.Counts.positive {line : DataLine} {copies : Nat}
    (counts : line.Counts constants copies) : 0 < copies := by
  rcases line with ⟨_ | count, data⟩
  · rw [Counts] at counts
    omega
  · exact counts.2.1

/-- A statement says what is on its line, however the line is read. -/
theorem DataLine.SpelledBy.exists_counts {written : DataLine}
    (spelled : written.SpelledBy (keyword :: tokens))
    (statement :
      IsStatement default constants (keyword :: tokens) item) :
    ∃ copies, written.Counts constants copies ∧
      item = .instruction ⟨keyword.line,
        .data (List.replicate copies (written.items constants)).flatten⟩
      := by
  -- a parser has one answer to the line, so all ways to read it agree
  obtain ⟨parser, rfl, rfl, faces, given⟩ := statement.exists_faces
  cases spelled with
  | @once _ mnemonic data _ kind category spelled =>
      have once : mnemonic.category ≠ .times := by simp [category]
      have answer := faces.next_arguments kind once
        (.some spelled.areArguments)
      rw [given, (Operation.ofArguments_eq_ok_iff once).2
        (.data category spelled.areData)] at answer
      cases answer
      refine ⟨1, rfl, ?_⟩
      simp [items]
  | @repeated _ comma mnemonic count data front back kind category counted
      divides spelled =>
      have answer := faces.next_repetition kind category
        counted.isExpression divides (.some spelled.areArguments)
      obtain ⟨operation, made, rfl⟩ :=
        Operation.eq_of_answer (answer.symm.trans given)
      obtain ⟨items, bytes, isCount, rfl⟩ :=
        (Operation.ofArguments_times_eq_ok_iff category).1 made
      have same : items = data.flatMap (Datum.items parser.constants) :=
        Except.ok.inj ((Operation.dataItems_eq_ok_iff.2 bytes).symm.trans
          (Operation.dataItems_eq_ok_iff.2 spelled.areData))
      have positive := isCount.positive
      have limited : (count.symbolic parser.constants).base.toInt ≤
        2 ^ 20 := isCount.limited
      refine ⟨(count.symbolic parser.constants).base.toInt.toNat,
        ⟨isCount.constant, by omega, by omega, by omega⟩, ?_⟩
      rw [same]
      rfl

/-! ## From values to bytes -/

variable {addresses : Table Int}

/-- A chain amounts to its symbolic integer, up to wrap-around. -/
theorem Chain.weigh_numberOf (disjoint : Parse.Disjoint constants addresses)
    {chain : Chain} (known : (chain.symbolic constants).Known addresses)
    (others : Text → Int) :
    (chain.symbolic constants).weigh (SymInt.addressWord addresses) =
      Int64.ofInt
        (chain.value (numberOf constants addresses others)) := by
  have agreed : (chain.symbolic constants).weigh
        (SymInt.addressWord addresses) =
      (chain.symbolic constants).weigh fun label =>
        Int64.ofInt (numberOf constants addresses others label) := by
    refine SymInt.weigh_congr fun term member => ?_
    -- a label that counts has an address, so it is no constant
    have present := SymInt.known_iff_terms.1 known term member
    have free : constants.find? term.1 = none := by
      simpa [Table.contains] using disjoint term.1 present
    obtain ⟨address, found⟩ := Option.isSome_iff_exists.1 present
    simp [SymInt.addressWord, numberOf, free, found]
  rw [agreed]
  refine measure_symbolic (.weigh _) (fun number => ?_) (fun name => ?_)
    chain
  · rw [SymInt.weigh_constant, Int64.ofInt_toInt]
  · cases found : constants.find? name with
    | some number =>
        simp [Parse.nameValue, numberOf, found, SymInt.weigh_constant]
    | none => simp [Parse.nameValue, found, SymInt.weigh_symbol]

/-- The byte of an item. -/
def finalByte (addresses : Table Int) (value : SymInt) : UInt8 :=
  byteOf (value.weigh (SymInt.addressWord addresses))

/-- The value has an address for every label, and comes out as a byte. -/
structure IsFinal (addresses : Table Int) (value : SymInt) : Prop where
  known : value.Known addresses
  isByte : IsByte (value.weigh (SymInt.addressWord addresses))

theorem Datum.emits_finalBytes
    (disjoint : Parse.Disjoint constants addresses) {datum : Datum}
    (final : ∀ value ∈ datum.items constants, IsFinal addresses value) :
    datum.Emits Wraps constants addresses
      ((datum.items constants).map (finalByte addresses)) := by
  cases datum with
  | string bytes =>
      have same : ((Datum.string bytes).items constants).map
          (finalByte addresses) = bytes := by
        simp [items, argument, Argument.spread, Function.comp_def,
          finalByte, SymInt.weigh_constant, byteOf_ofNat]
      rw [same]
      exact .string
  | value chain =>
      obtain ⟨known, isByte⟩ := final (chain.symbolic constants)
        (List.mem_singleton.2 rfl)
      refine .value fun others => ?_
      rw [finalByte, toNat_byteOf isByte,
        chain.weigh_numberOf disjoint known others]
      exact wraps_toInt_ofInt _

theorem DataLine.Counts.isRepeated
    (disjoint : Parse.Disjoint constants addresses) {line : DataLine}
    {copies : Nat} (counts : line.Counts constants copies) :
    line.IsRepeated Wraps constants addresses copies := by
  rcases line with ⟨_ | count, data⟩
  · exact counts
  · obtain ⟨constant, positive, limited, base⟩ := counts
    refine ⟨positive, limited, fun others => ?_⟩
    have known : (count.symbolic constants).Known addresses :=
      fun label used => absurd (SymInt.isConstant_iff.1 constant label) used
    rw [← base, ← SymInt.weigh_of_isConstant constant,
      Chain.weigh_numberOf disjoint known others]
    exact wraps_toInt_ofInt _

/-- The bytes of the items of a line are written for it. -/
theorem DataLine.emits_finalBytes
    (disjoint : Parse.Disjoint constants addresses) {line : DataLine}
    {copies : Nat} (counts : line.Counts constants copies)
    (final : ∀ value ∈ line.items constants, IsFinal addresses value) :
    line.Emits Wraps constants addresses
      ((List.replicate copies (line.items constants)).flatten.map
        (finalByte addresses)) := by
  refine ⟨copies, line.data.map fun datum =>
    (datum.items constants).map (finalByte addresses), ?_,
    counts.isRepeated disjoint, ?_⟩
  · rw [List.map_flatten, List.map_replicate, items, List.map_flatMap,
      List.flatMap_def]
  · rw [List.forall₂_map_right_iff]
    refine List.forall₂_same.2 fun datum member => ?_
    exact datum.emits_finalBytes disjoint fun value inItems =>
      final value (List.mem_flatMap.2 ⟨datum, member, inItems⟩)

end Grammar

/-! ## Lines of a program -/

/-- The code of data is finished byte by byte. -/
theorem Code.finished_data (addresses : Table Int)
    (values : List SymInt) :
    Code.finished addresses
        ⟨[], values.map fun value => ⟨value, .byte, true⟩⟩ =
      values.map (Grammar.finalByte addresses) := by
  have each : ∀ value ∈ values, LittleEndian.digits Width.byte.size
      ((value.exactly fun label => (addresses.find? label).getD 0) %
        2 ^ (8 * Width.byte.size)).toNat =
      [Grammar.finalByte addresses value] := fun value _ =>
    (@write_finalWord ⟨value, .byte, true⟩ addresses rfl).symm
  rw [finished, List.nil_append, List.flatMap_map, List.map_eq_flatMap]
  exact List.flatMap_congr each

/-- Data is encoded as one field for each item. -/
theorem Instruction.encode_data {line : Int} {values : List SymInt}
    {code : Code}
    (encoded : (⟨line, .data values⟩ : Instruction).encode = .ok code) :
    code = ⟨[], values.map fun value => ⟨value, .byte, true⟩⟩ := by
  by_cases outside : values.any Operation.isOutOfRange = true
  · simp [encode, Operation.encode, outside] at encoded
  · simp only [encode, Operation.encode, if_neg outside] at encoded
    exact (Except.ok.inj encoded).symm

namespace Assembler

open Grammar
open TokenStream (markToken numberToken wordToken)

variable {language : FormulaLanguage} {assembler : Assembler} {text : Text}
  {program : Program}

/-- The items of data come out as bytes. -/
theorem isFinal_of_assembleWith
    (assembled : assembler.assembleWith language (.ok text) = .ok program)
    {items : List Item} {fault : Option Error}
    (delivered : (assembler.parser language text).Delivers items fault)
    {line : Int} {values : List SymInt}
    (listed : .instruction ⟨line, .data values⟩ ∈ items) :
    ∀ value ∈ values, IsFinal program.symbols value := by
  have resolved := resolved_of_assembleWith assembled delivered
  obtain ⟨code, encoded⟩ := resolved.encodes _ listed
  intro value member
  refine ⟨?_, resolved.bytes line values listed value member⟩
  refine resolved.known code (Items.mem_codes listed encoded)
    ⟨value, .byte, true⟩ ?_
  rw [Instruction.encode_data encoded]
  exact List.mem_map.2 ⟨value, member, rfl⟩

/--
A line of data is written as it says, up to wrap-around.

Each expression on the line has one byte, which is its value modulo 2⁶⁴, and
the exact one if and only if this fits into a word of 64 bits.  So it is with
the number of copies.
-/
theorem dataLine_of_assembleWith
    (assembled : assembler.assembleWith language (.ok text) = .ok program)
    {keyword : Token} {mnemonic : Mnemonic} {tokens : List Token}
    (member : keyword :: tokens ∈
      statementLines (assembler.scanned language text).tokens)
    (kind : keyword.kind = .mnemonic mnemonic)
    (category : mnemonic.category = .data ∨ mnemonic.category = .times) :
    (∃ written : DataLine, written.SpelledBy (keyword :: tokens)) ∧
      ∀ written : DataLine, written.SpelledBy (keyword :: tokens) →
        ∃ statement ∈ program.statements,
          statement.line = keyword.line ∧
          written.Emits Wraps assembler.constants program.symbols
            (program.bytesOf statement) := by
  have delivered := assembler.parser_delivers language text
  obtain ⟨faultless, -⟩ := laidOut_of_assembleWith assembled delivered
  have lines := delivered.ofText_readsLines
  rw [faultless] at lines
  obtain ⟨item, inItems, isStatement⟩ := lines.exists_item _ member
  refine ⟨isStatement.exists_dataLine kind category,
    fun written spelled => ?_⟩
  obtain ⟨copies, counts, rfl⟩ := spelled.exists_counts isStatement
  obtain ⟨statement, inProgram, made⟩ :=
    (exists_statement_iff assembled delivered).2 inItems
  have encoded :=
    (statements_of_assembleWith assembled delivered).2 statement inProgram
  have code := encoded.code_eq
  rw [made] at code
  refine ⟨statement, inProgram, by rw [encoded.line_eq, made], ?_⟩
  rw [bytesOf_of_assembleWith assembled statement inProgram,
    Instruction.encode_data code, Code.finished_data]
  refine DataLine.emits_finalBytes
    (disjoint_of_assembleWith assembled delivered) counts
    fun value inLine => ?_
  refine isFinal_of_assembleWith assembled delivered inItems value ?_
  have some : copies ≠ 0 := Nat.ne_of_gt counts.positive
  exact List.mem_flatten.2
    ⟨_, List.mem_replicate.2 ⟨some, rfl⟩, inLine⟩

/-- Data and a count that both wrap around. -/
def overflowing : Text :=
  Text.ascii "data 9223372036854775807+9223372036854775807+2\n" ++
    Text.ascii "times 9223372036854775807+9223372036854775807+3, 7"

/-- The largest word twice, and a further number. -/
def overflowingChain (last : Nat) : Chain :=
  .sum (.sum (.term (.integer Int64.maxValue)) (.integer Int64.maxValue))
    (.integer (Int64.ofNat last))

/-- The tokens of this sum. -/
def overflowingTokens (line : Int) (last : Nat) : List Token :=
  [numberToken line (2 ^ 63 - 1), markToken line .plus,
    numberToken line (2 ^ 63 - 1), markToken line .plus,
    numberToken line last]

/-- The line that starts with the keyword of data. -/
def overflowingData : List Token :=
  wordToken 1 (Text.ascii "data") :: overflowingTokens 1 2

/-- The line that repeats a byte. -/
def overflowingTimes : List Token :=
  wordToken 2 (Text.ascii "times") :: (overflowingTokens 2 3 ++
    markToken 2 .comma :: [numberToken 2 7])

theorem overflowingChain_spelledBy (line : Int) (last : Nat) :
    (overflowingChain last).SpelledBy (overflowingTokens line last) := by
  have same : Int64.ofNat (2 ^ 63 - 1) = Int64.maxValue := by decide
  have largest : Term.SpelledBy (.integer Int64.maxValue)
      [numberToken line (2 ^ 63 - 1)] :=
    .integer (congrArg Token.Kind.integer same)
  exact .sum (.sum (.term largest) rfl largest) rfl (.integer rfl)

theorem overflowingChain_value {last : Nat} (small : last < 2 ^ 63)
    (numbers : Text → Int) :
    (overflowingChain last).value numbers = 2 ^ 64 - 2 + last := by
  have largest : Int64.maxValue.toInt = 2 ^ 63 - 1 := by decide
  simp only [overflowingChain, Chain.value, Chain.total, Term.total,
    largest, Int64.toInt_ofNat_of_lt small]
  omega

/-- What the line of data says. -/
def overflowingDataLine : DataLine :=
  ⟨none, [.value (overflowingChain 2)]⟩

/-- What the line that repeats a byte says. -/
def overflowingTimesLine : DataLine :=
  ⟨some (overflowingChain 3), [.value (.term (.integer 7))]⟩

theorem overflowingDataLine_spelledBy :
    overflowingDataLine.SpelledBy overflowingData :=
  @DataLine.SpelledBy.once _ (.single "data" .data 0) _ _ rfl rfl
    (.last (.value (overflowingChain_spelledBy 1 2)))

theorem overflowingTimesLine_spelledBy :
    overflowingTimesLine.SpelledBy overflowingTimes :=
  @DataLine.SpelledBy.repeated _ _ (.single "times" .times 0) _ _ _ _ rfl
    rfl (overflowingChain_spelledBy 2 3) rfl
    (.last (.value (.term (.integer rfl))))

theorem overflowing_assembles :
    ∃ program, initial.assembleWith noFormulas
        (.ok overflowing) = .ok program ∧
      program.binary = #[0, 7] ∧
      statementLines (initial.scanned noFormulas
        overflowing).tokens = [overflowingData, overflowingTimes] := by
  have binary : (initial.assembleWith noFormulas
      (.ok overflowing)).toOption.map Program.binary = some #[0, 7] := by
    decide +kernel
  have lines : statementLines (initial.scanned noFormulas
      overflowing).tokens = [overflowingData, overflowingTimes] := by
    decide +kernel
  cases result : initial.assembleWith noFormulas
      (.ok overflowing) with
  | error fault =>
      rw [result] at binary
      cases binary
  | ok program =>
      rw [result] at binary
      exact ⟨program, rfl, Option.some.inj binary, lines⟩

/-- The bytes of both lines agree with what they say modulo 2⁶⁴. -/
theorem overflowing_wraps :
    ∃ program, initial.assembleWith noFormulas (.ok overflowing) =
        .ok program ∧ program.binary = #[0, 7] ∧
      (∃ statement ∈ program.statements, statement.line = 1 ∧
        overflowingDataLine.Emits Wraps ∅ program.symbols
          (program.bytesOf statement)) ∧
      ∃ statement ∈ program.statements, statement.line = 2 ∧
        overflowingTimesLine.Emits Wraps ∅ program.symbols
          (program.bytesOf statement) := by
  obtain ⟨program, assembled, binary, lines⟩ := overflowing_assembles
  have first := dataLine_of_assembleWith assembled
    (by rw [lines]; exact List.mem_cons_self) rfl (.inl rfl)
  have second := dataLine_of_assembleWith assembled
    (by rw [lines]; exact List.mem_cons_of_mem _ List.mem_cons_self) rfl
    (.inr rfl)
  exact ⟨program, assembled, binary,
    first.2 _ overflowingDataLine_spelledBy,
    second.2 _ overflowingTimesLine_spelledBy⟩

/-- But no bytes at all are exactly what either line says. -/
theorem overflowing_notExact :
    ∃ program, initial.assembleWith noFormulas (.ok overflowing) =
        .ok program ∧ program.binary = #[0, 7] ∧
      statementLines (initial.scanned noFormulas overflowing).tokens =
        [overflowingData, overflowingTimes] ∧
      overflowingDataLine.SpelledBy overflowingData ∧
      overflowingTimesLine.SpelledBy overflowingTimes ∧
      ∀ bytes,
        ¬ overflowingDataLine.Emits (· = ·) ∅ program.symbols bytes ∧
        ¬ overflowingTimesLine.Emits (· = ·) ∅ program.symbols bytes := by
  obtain ⟨program, assembled, binary, lines⟩ := overflowing_assembles
  refine ⟨program, assembled, binary, lines,
    overflowingDataLine_spelledBy, overflowingTimesLine_spelledBy,
    fun bytes => ⟨?_, ?_⟩⟩
  · rintro ⟨copies, pieces, -, -, emitted⟩
    cases emitted with
    | cons first =>
      cases first with
      | @value _ byte agrees =>
        have same := agrees fun _ => 0
        rw [overflowingChain_value (by decide)] at same
        have bound := byte.toNat_lt
        omega
  · rintro ⟨copies, pieces, -, ⟨-, limited, agrees⟩, -⟩
    have same := agrees fun _ => 0
    rw [overflowingChain_value (by decide)] at same
    omega

end Assembler

end FlatAsm
