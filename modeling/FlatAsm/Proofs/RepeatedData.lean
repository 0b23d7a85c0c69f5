import FlatAsm.Proofs.LineAnswers

/-!
# Repeated data

A repetition writes its data several times over.  It is accepted exactly if
its count is a number, at least one, and neither the count nor the number of
all items exceeds a limit.  Then it stands for the same items as data whose
arguments are written out that often.

The number of all items is computed in words of 64 bits.  The limit is so
small that this does not overflow, unless there are more items than any text
has.
-/

namespace FlatAsm

namespace Argument

/-- The argument may stand in data: it is a string or an expression. -/
def IsDatum : Argument → Prop
  | .string _ | .operand (.displacement _) => True
  | .operand _ => False

/-- One item for each byte of a string, and one for an expression. -/
def spread : Argument → List SymInt
  | .string bytes =>
      bytes.map fun byte => .constant (Int64.ofNat byte.toNat)
  | .operand (.displacement value) => [value]
  | .operand _ => []

theorem isData_spread {argument : Argument} (datum : argument.IsDatum) :
    Grammar.IsData argument argument.spread := by
  cases argument with
  | string bytes => exact .string
  | operand content =>
      cases content with
      | displacement value => exact .value
      | register | indirect | indirectDisplacement => cases datum

theorem flatMap_spread_replicate (count : Nat)
    (arguments : List Argument) :
    (List.replicate count arguments).flatten.flatMap spread =
      (List.replicate count (arguments.flatMap spread)).flatten := by
  induction count with
  | zero => rfl
  | succ count inductionHypothesis =>
      rw [List.replicate_succ, List.replicate_succ, List.flatten_cons,
        List.flatten_cons, List.flatMap_append, inductionHypothesis]

end Argument

namespace Grammar

/-- Strings and expressions are data, with the items of each in order. -/
theorem areData_spread {arguments : List Argument}
    (given : arguments ≠ [])
    (data : ∀ argument ∈ arguments, argument.IsDatum) :
    AreData arguments (arguments.flatMap Argument.spread) := by
  induction arguments with
  | nil => exact absurd rfl given
  | cons argument others inductionHypothesis =>
      obtain ⟨datum, data⟩ := List.forall_mem_cons.1 data
      have first := Argument.isData_spread datum
      cases others with
      | nil => simpa using AreData.last first
      | cons => exact .further first (inductionHypothesis nofun data)

theorem AreArguments.ne_nil {constants : Table Int64}
    {tokens : List Token} {arguments : List Argument}
    (listed : AreArguments constants tokens arguments) :
    arguments ≠ [] := by
  cases listed <;> simp

/-- Arguments that are written several times over, with commas between. -/
theorem AreArguments.append {constants : Table Int64}
    {front back : List Token} {comma : Token}
    {arguments others : List Argument}
    (listed : AreArguments constants front arguments)
    (divides : comma.kind = .punctuation .comma)
    (further : AreArguments constants back others) :
    AreArguments constants (front ++ comma :: back)
      (arguments ++ others) := by
  induction listed with
  | last only => exact .further only divides further
  | further first split _ inductionHypothesis =>
      rw [List.append_assoc, List.cons_append]
      exact .further first split inductionHypothesis

theorem AreArguments.replicate {constants : Table Int64}
    {tokens : List Token} {comma : Token} {arguments : List Argument}
    (listed : AreArguments constants tokens arguments)
    (divides : comma.kind = .punctuation .comma) (count : Nat) :
    AreArguments constants
      ([comma].intercalate (List.replicate (count + 1) tokens))
      (List.replicate (count + 1) arguments).flatten := by
  induction count with
  | zero => simpa using listed
  | succ count inductionHypothesis =>
      rw [List.replicate_succ, List.replicate_succ] at inductionHypothesis
      rw [List.replicate_succ, List.replicate_succ,
        List.intercalate_cons_cons, List.replicate_succ, List.flatten_cons,
        List.replicate_succ, List.append_assoc]
      exact listed.append divides inductionHypothesis

end Grammar

namespace Operation

open Grammar

/-- Why a count is refused, if it is. -/
def refusal (count : SymInt) : Cause :=
  if count.isConstant = false then .relocationUnsupported
  else if count.base.toInt < 1 then .timesCount
  else .numberRange

/-- Within the limit of a count, words do not overflow. -/
theorem toInt_total {count : Int64} {size : Nat}
    (positive : 1 ≤ count.toInt) (limited : count.toInt ≤ 2 ^ 20)
    (feasible : size < 2 ^ 43) :
    (count * Int64.ofNat size).toInt = count.toInt * size := by
  have nonneg : 0 ≤ count.toInt * (size : Int) :=
    Int.mul_nonneg (by omega) (by omega)
  have bound : count.toInt * (size : Int) ≤ 2 ^ 20 * (size : Int) :=
    Int.mul_le_mul_of_nonneg_right limited (by omega)
  rw [Int64.toInt_mul, Int64.toInt_ofNat_of_lt (by omega)]
  apply Int.bmod_eq_of_le <;> omega

/-- The limits can be checked in words, as long as there are not too many
items. -/
theorem exceeds_iff {count : Int64} {size : Nat}
    (positive : 1 ≤ count.toInt) (feasible : size < 2 ^ 43) :
    (Int64.ofNat timesLimit < count ∨
        Int64.ofNat timesLimit < count * Int64.ofNat size) ↔
      ¬(count.toInt ≤ 2 ^ 20 ∧ count.toInt * size ≤ 2 ^ 20) := by
  rw [exceeds_iff_not_within]
  refine not_congr (and_congr_right fun limited => ?_)
  rw [toInt_total positive limited feasible]
  rfl

/-- The limits are exact, as long as there are not too many items. -/
theorem isCount_iff {count : SymInt} {items : List SymInt}
    (feasible : items.length < 2 ^ 43) :
    IsCount count items ↔
      count.isConstant = true ∧ 1 ≤ count.base.toInt ∧
        count.base.toInt ≤ 2 ^ 20 ∧
        count.base.toInt * items.length ≤ 2 ^ 20 := by
  constructor
  · rintro ⟨constant, positive, limited, total⟩
    rw [toInt_total positive limited feasible] at total
    exact ⟨constant, positive, limited, total⟩
  · rintro ⟨constant, positive, limited, total⟩
    rw [← toInt_total positive limited feasible] at total
    exact ⟨constant, positive, limited, total⟩

theorem timesItems_eq_refusal {count : SymInt} {items : List SymInt}
    (refused : ¬IsCount count items) :
    timesItems count items = .error (refusal count) := by
  have one : (1 : Int64).toInt = 1 := by decide
  cases constant : count.isConstant with
  | false => simp [timesItems, refusal, constant]
  | true =>
      by_cases below : count.base.toInt < 1
      · have below' : count.base < 1 := by
          rw [Int64.lt_iff_toInt_lt, one]
          exact below
        simp [timesItems, refusal, constant, below, below']
      · have atLeast : ¬count.base < 1 := by
          rw [Int64.lt_iff_toInt_lt, one]
          exact below
        have above : Int64.ofNat timesLimit < count.base ∨
            Int64.ofNat timesLimit <
              count.base * Int64.ofNat items.length := by
          rw [exceeds_iff_not_within]
          rintro ⟨limited, total⟩
          exact refused ⟨constant, by omega, limited, total⟩
        rw [timesItems, refusal, constant, if_neg (by decide),
          if_neg atLeast, if_pos above, if_neg (by decide), if_neg below]

theorem ofArguments_eq_refusal {default : Width} {mnemonic : Mnemonic}
    {count : SymInt} {arguments : List Argument} {items : List SymInt}
    (category : mnemonic.category = .times)
    (flattened : dataItems arguments = .ok items)
    (refused : ¬IsCount count items) :
    ofArguments default mnemonic count arguments =
      .error (refusal count) := by
  rw [ofArguments, category]
  change (dataItems arguments >>= _) = _
  rw [flattened]
  change (timesItems count items >>= _) = _
  rw [timesItems_eq_refusal refused]
  rfl

end Operation

namespace Parser

open Grammar

/--
How a parser answers a repetition with a count and arguments.

The arguments are written by `tokens` and stand for `items`.
-/
structure RepeatsData (parser : Parser) (keyword : Token)
    (mnemonic : Mnemonic) (count : SymInt) (tokens : List Token)
    (arguments : List Argument) (items : List SymInt) : Prop where
  flattened : Operation.dataItems arguments = .ok items
  accepted : items.length < 2 ^ 43 →
    ((∃ item, parser.next.1 = .ok (some item)) ↔
      count.isConstant = true ∧ 1 ≤ count.base.toInt ∧
        count.base.toInt ≤ 2 ^ 20 ∧
        count.base.toInt * items.length ≤ 2 ^ 20)
  copies : ∀ item, parser.next.1 = .ok (some item) →
    ∃ all, item = .instruction ⟨keyword.line, .data all⟩ ∧
      all = (List.replicate count.base.toInt.toNat items).flatten ∧
      (all.length : Int) = count.base.toInt * items.length ∧
      /- Data with the arguments written so often has the same items. -/
      ∀ {other : Parser} {opening comma : Token} {data : Mnemonic},
        other.constants = parser.constants →
        opening.kind = .mnemonic data → data.category = .data →
        comma.kind = .punctuation .comma →
        other.Faces (opening :: [comma].intercalate
          (List.replicate count.base.toInt.toNat tokens)) →
        other.next.1 = .ok (some (.instruction ⟨opening.line, .data all⟩))
  refused : (∀ item, parser.next.1 ≠ .ok (some item)) →
    parser.next.1 = .error
      (.operand keyword.line mnemonic.name (Operation.refusal count))
  /-- The number of all items is computed in words without overflow. -/
  product : items.length < 2 ^ 43 → 1 ≤ count.base.toInt →
    count.base.toInt ≤ 2 ^ 20 →
      (count.base * Int64.ofNat items.length).toInt =
        count.base.toInt * items.length
  /-- Checking the limits in words is checking them. -/
  limits : items.length < 2 ^ 43 → 1 ≤ count.base.toInt →
    ((Int64.ofNat Operation.timesLimit < count.base ∨
        Int64.ofNat Operation.timesLimit <
          count.base * Int64.ofNat items.length) ↔
      ¬(count.base.toInt ≤ 2 ^ 20 ∧
        count.base.toInt * items.length ≤ 2 ^ 20))

/-- Data with its arguments written several times over. -/
theorem Faces.next_replicate {parser : Parser} {opening comma : Token}
    {mnemonic : Mnemonic} {tokens : List Token}
    {arguments : List Argument} {count : Nat} (positive : 0 < count)
    (faces : parser.Faces
      (opening :: [comma].intercalate (List.replicate count tokens)))
    (kind : opening.kind = .mnemonic mnemonic)
    (category : mnemonic.category = .data)
    (divides : comma.kind = .punctuation .comma)
    (listed : AreArguments parser.constants tokens arguments)
    (data : ∀ argument ∈ arguments, argument.IsDatum) :
    parser.next.1 = .ok (some (.instruction ⟨opening.line,
      .data (List.replicate count
        (arguments.flatMap Argument.spread)).flatten⟩)) := by
  obtain ⟨fewer, rfl⟩ := Nat.exists_eq_add_one.2 positive
  have many := listed.replicate divides fewer
  have bytes := areData_spread many.ne_nil (by
    intro argument member
    obtain ⟨copy, copied, member⟩ := List.mem_flatten.1 member
    rw [List.eq_of_mem_replicate copied] at member
    exact data argument member)
  rw [Argument.flatMap_spread_replicate] at bytes
  have once : mnemonic.category ≠ .times := by simp [category]
  rw [faces.next_arguments kind once (.some many),
    (Operation.ofArguments_eq_ok_iff once).2 (.data category bytes)]
  rfl

/--
A repetition is data that is written as often as its count says, provided
that the count is a number within limits.
-/
theorem Faces.repeatsData {parser : Parser} {keyword comma : Token}
    {mnemonic : Mnemonic} {front back : List Token} {count : SymInt}
    {arguments : List Argument}
    (faces : parser.Faces (keyword :: (front ++ comma :: back)))
    (kind : keyword.kind = .mnemonic mnemonic)
    (category : mnemonic.category = .times)
    (counted : IsExpression parser.constants front count)
    (divides : comma.kind = .punctuation .comma)
    (listed : AreArguments parser.constants back arguments)
    (data : ∀ argument ∈ arguments, argument.IsDatum) :
    parser.RepeatsData keyword mnemonic count back arguments
      (arguments.flatMap Argument.spread) := by
  have bytes := areData_spread listed.ne_nil data
  have flattened := Operation.dataItems_eq_ok_iff.2 bytes
  have answer := faces.next_repetition kind category counted divides
    (.some listed)
  have made (isCount : IsCount count (arguments.flatMap Argument.spread)) :
      parser.next.1 = .ok (some (.instruction ⟨keyword.line,
        .data (List.replicate count.base.toInt.toNat
          (arguments.flatMap Argument.spread)).flatten⟩)) := by
    rw [answer, (Operation.ofArguments_times_eq_ok_iff category).2
      ⟨_, bytes, isCount, rfl⟩]
    rfl
  have failed
      (refused : ¬IsCount count (arguments.flatMap Argument.spread)) :
      parser.next.1 = .error (.operand keyword.line mnemonic.name
        (Operation.refusal count)) := by
    rw [answer, Operation.ofArguments_eq_refusal category flattened refused]
    rfl
  have isCount_of_item {item : Item}
      (given : parser.next.1 = .ok (some item)) :
      IsCount count (arguments.flatMap Argument.spread) := by
    by_contra refused
    cases (failed refused).symm.trans given
  constructor
  case flattened => exact flattened
  case accepted =>
    intro feasible
    rw [← Operation.isCount_iff feasible]
    constructor
    · rintro ⟨item, given⟩
      exact isCount_of_item given
    · intro isCount
      exact ⟨_, made isCount⟩
  case copies =>
    intro item given
    have isCount := isCount_of_item given
    have positive := isCount.positive
    cases (made isCount).symm.trans given
    refine ⟨_, rfl, rfl, ?_, ?_⟩
    · simp only [List.length_flatten, List.map_replicate,
        List.sum_replicate_nat, Nat.cast_mul]
      rw [Int.toNat_of_nonneg (by omega)]
    · intro other opening comma mnemonic same kind category divides faces
      refine faces.next_replicate (by omega) kind category divides ?_ data
      rw [same]
      exact listed
  case refused =>
    intro none
    exact failed fun isCount => none _ (made isCount)
  case product =>
    intro feasible positive limited
    exact Operation.toInt_total positive limited feasible
  case limits =>
    intro feasible positive
    exact Operation.exceeds_iff positive feasible

/-- A keyword on the second line of a text. -/
def greetingKeyword (mnemonic : Mnemonic) : Token :=
  ⟨.mnemonic mnemonic, 2, mnemonic.name⟩

/-- A comma on the second line of a text. -/
def greetingComma : Token :=
  ⟨.punctuation .comma, 2, [0x2c]⟩

/-- The tokens of a string and a label on the second line of a text. -/
def greeting : List Token :=
  [⟨.string, 2, Text.ascii "ab"⟩, greetingComma,
    ⟨.identifier, 2, Text.ascii "x"⟩]

/-- The tokens of a count on the second line of a text. -/
def greetingCount : List Token :=
  [⟨.integer 2, 2, Text.ascii "2"⟩, ⟨.punctuation .plus, 2, [0x2b]⟩,
    ⟨.integer 1, 2, Text.ascii "1"⟩]

/-- A parser of a repetition, and one of data. -/
def greetings : Parser × Parser :=
  (ofText none .byte ∅ (Text.ascii "\ntimes 2+1, \"ab\", x\nret"),
    ofText none .word ∅
      (Text.ascii "\ndata \"ab\", x, \"ab\", x, \"ab\", x"))

/-- What the repetition and the data stand for. -/
def greetingItems : List SymInt :=
  let items := [.constant 0x61, .constant 0x62,
    .symbol (Text.ascii "x")]
  items ++ items ++ items

/-- Data is the same whether its arguments are repeated or written out. -/
theorem greetings_repeatData :
    greetings.1.next.1 =
        .ok (some (.instruction ⟨2, .data greetingItems⟩)) ∧
      greetings.2.next.1 =
        .ok (some (.instruction ⟨2, .data greetingItems⟩)) := by
  have first : greetings.1.Faces
      (greetingKeyword (.single "times" .times 0) ::
        (greetingCount ++ greetingComma :: greeting)) :=
    ⟨[⟨.newline, 1, [0x0a]⟩], ⟨.newline, 2, [0x0a]⟩,
      [⟨.mnemonic (.single "ret" .nullary 18), 3, Text.ascii "ret"⟩,
        ⟨.endOfText, 3, []⟩], by decide +kernel, by simp, rfl⟩
  have second : greetings.2.Faces
      (greetingKeyword (.single "data" .data 0) ::
        [greetingComma].intercalate (List.replicate 3 greeting)) :=
    ⟨[⟨.newline, 1, [0x0a]⟩], ⟨.endOfText, 2, []⟩, [], by decide +kernel,
      by simp, rfl⟩
  have counted : IsExpression greetings.1.constants greetingCount
      ((SymInt.constant 2).add (.constant 1)) :=
    @IsExpression.sum _ [_] [_] _ _ _ (.term (.integer rfl)) rfl
      (.integer rfl)
  have listed : AreArguments greetings.1.constants greeting
      [.string (Text.ascii "ab"),
        .operand (.displacement (.symbol (Text.ascii "x")))] :=
    @AreArguments.further _ [_] [_] _ _ _ (.string rfl) rfl
      (.last (.expression (.term (.label rfl rfl))))
  have repeats := first.repeatsData rfl rfl counted rfl listed
    (by simp [Argument.IsDatum])
  obtain ⟨item, given⟩ := (repeats.accepted (by decide)).2 (by decide)
  obtain ⟨all, rfl, copies, -, written⟩ := repeats.copies item given
  have same : all = greetingItems := by
    rw [copies]
    decide +kernel
  have three :
      ((SymInt.constant 2).add (.constant 1)).base.toInt.toNat = 3 := by
    decide
  have none : greetings.1.constants = ∅ ∧ greetings.2.constants = ∅ :=
    ⟨rfl, rfl⟩
  rw [same] at given written
  rw [three] at written
  exact ⟨given, written (none.2.trans none.1.symm) rfl rfl rfl second⟩

end Parser

end FlatAsm
