import FlatAsm.Proofs.LineScanning
import FlatAsm.Proofs.ParserOutput
import Mathlib.Data.List.Induction
import Mathlib.Data.Nat.Digits.Defs

/-!
# Lexemes

A token is read from the front of a text.  This module says what each class
of tokens looks like, in terms of the bytes of the token and of the text that
follows it, and for which texts there is an error instead.

Line ends, numbers and words are runs: they go on as long as there are bytes
of their class.
-/

namespace FlatAsm

/-! ## Decimal numbers -/

namespace Text

/-- The number with these decimal digits, the highest digit first. -/
def decimalValue (digits : Text) : Nat :=
  Nat.ofDigits 10 (digits.reverse.map digitValue)

theorem decimalValue_concat (digits : Text) (digit : UInt8) :
    decimalValue (digits ++ [digit]) =
      10 * decimalValue digits + digitValue digit := by
  simp [decimalValue, Nat.ofDigits_cons, Nat.add_comm]

/-- Reading digits gives their value unless it reaches the limit. -/
theorem decimalBelow?_eq {limit : Nat} (positive : 0 < limit)
    (digits : Text) :
    decimalBelow? limit digits =
      if decimalValue digits < limit then some (decimalValue digits)
      else none := by
  induction digits using List.reverseRecOn with
  | nil => simp [decimalBelow?, decimalValue, positive]
  | append_singleton digits digit inductionHypothesis =>
      rw [decimalBelow?] at inductionHypothesis ⊢
      rw [List.foldlM_append, inductionHypothesis, decimalValue_concat]
      -- a value that has reached the limit stays above it
      split
      · simp
      · next reached =>
        rw [if_neg (by omega)]
        rfl

end Text

namespace Token

/-! ## Runs -/

/-- The bytes that may start a run, and those that may go on it. -/
structure RunClass where
  starts : UInt8 → Bool
  goesOn : UInt8 → Bool

namespace RunClass

/-- Line ends in a row. -/
def newlines : RunClass :=
  ⟨(· == lineFeed), (· == lineFeed)⟩

/-- Digits of a number. -/
def numbers : RunClass :=
  ⟨Text.isDigit, Text.isDigit⟩

/-- Words, which do not start with a digit. -/
def words : RunClass :=
  ⟨isWordStart, isWordByte⟩

/-- All classes of runs. -/
def all : List RunClass :=
  [newlines, numbers, words]

theorem newlines_mem : newlines ∈ all :=
  List.mem_cons_self

theorem numbers_mem : numbers ∈ all :=
  List.mem_cons_of_mem _ List.mem_cons_self

theorem words_mem : words ∈ all :=
  List.mem_cons_of_mem _ (List.mem_cons_of_mem _ List.mem_cons_self)

/-- Is the text a run of the class? -/
def isRun (runs : RunClass) : Text → Bool
  | [] => false
  | first :: rest => runs.starts first && rest.all runs.goesOn

/-- What may start a run may also go on it. -/
theorem goesOn_of_starts {runs : RunClass} (known : runs ∈ all)
    {byte : UInt8} (starts : runs.starts byte = true) :
    runs.goesOn byte = true := by
  simp only [all, List.mem_cons, List.not_mem_nil, or_false] at known
  rcases known with rfl | rfl | rfl
  · exact starts
  · exact starts
  · simp only [words] at starts ⊢
    rw [isWordByte, starts, Bool.true_or]

variable {runs : RunClass} {run : Text}

theorem goesOn_of_mem (known : runs ∈ all) (isRun : runs.isRun run = true) :
    ∀ byte ∈ run, runs.goesOn byte = true := by
  cases run with
  | nil => cases isRun
  | cons first rest =>
      simp only [RunClass.isRun, Bool.and_eq_true, List.all_eq_true] at isRun
      exact List.forall_mem_cons.2
        ⟨goesOn_of_starts known isRun.1, isRun.2⟩

theorem ne_nil_of_isRun (isRun : runs.isRun run = true) : run ≠ [] := by
  rintro rfl
  cases isRun

theorem exists_cons_of_isRun (isRun : runs.isRun run = true) :
    ∃ first rest, run = first :: rest ∧ runs.starts first = true := by
  cases run with
  | nil => cases isRun
  | cons first rest =>
      rw [RunClass.isRun, Bool.and_eq_true] at isRun
      exact ⟨first, rest, rfl, isRun.1⟩

end RunClass

/-- The text does not start with such a byte. -/
def Stops (member : UInt8 → Bool) (text : Text) : Prop :=
  ∀ byte ∈ text.head?, member byte = false

theorem stops_dropWhile (member : UInt8 → Bool) (text : Text) :
    Stops member (text.dropWhile member) := by
  intro byte first
  have stopped := List.head?_dropWhile_not member text
  rw [Option.mem_def.1 first] at stopped
  exact stopped

/-- Bytes of a class go on up to where they stop. -/
theorem span_of_stops {member : UInt8 → Bool} {front after : Text}
    (inside : ∀ byte ∈ front, member byte = true)
    (ends : Stops member after) :
    (front ++ after).takeWhile member = front ∧
      (front ++ after).dropWhile member = after := by
  rw [List.takeWhile_append_of_pos inside,
    List.dropWhile_append_of_pos inside]
  cases after with
  | nil => simp
  | cons first rest =>
      have stopped := ends first rfl
      simp [stopped]

/-! ## Words -/

theorem not_isWordStart_of_isDigit {byte : UInt8}
    (digit : Text.isDigit byte = true) : isWordStart byte = false := by
  simp only [Text.isDigit, Bool.and_eq_true, decide_eq_true_eq,
    UInt8.le_iff_toNat_le] at digit
  simp only [isWordStart, Bool.or_eq_false_iff, Bool.and_eq_false_iff,
    decide_eq_false_iff_not, UInt8.le_iff_toNat_le, ← UInt8.toNat_inj]
  simp at digit ⊢
  omega

/-- What a word stands for, according to the tables of the machine. -/
inductive IsWordKind (word : Text) : Kind → Prop where
  | register {register : Register}
      (listed : (word.lowerCase, register) ∈ Register.named) :
      IsWordKind word (.register register)
  | mnemonic {mnemonic : Mnemonic}
      (noRegister : ∀ register,
        (word.lowerCase, register) ∉ Register.named)
      (listed : mnemonic ∈ Mnemonic.all)
      (named : mnemonic.name = word.lowerCase) :
      IsWordKind word (.mnemonic mnemonic)
  | identifier
      (noRegister : ∀ register,
        (word.lowerCase, register) ∉ Register.named)
      (noMnemonic : ∀ mnemonic ∈ Mnemonic.all,
        mnemonic.name ≠ word.lowerCase) :
      IsWordKind word .identifier

theorem isWordKind_wordKind (word : Text) :
    IsWordKind word (wordKind word) := by
  unfold wordKind
  split
  · next register found =>
    rw [Register.ofName?, List.lookup_eq_some_iff] at found
    obtain ⟨front, back, entries, -⟩ := found
    exact .register (by rw [entries]; simp)
  · next absent =>
    have noRegister : ∀ register,
        (word.lowerCase, register) ∉ Register.named := by
      rw [Register.ofName?, List.lookup_eq_none_iff] at absent
      intro register listed
      simpa using absent _ listed
    split
    · next mnemonic found =>
      refine .mnemonic noRegister (Mnemonic.ofName?_mem found) ?_
      unfold Mnemonic.ofName? at found
      simpa using List.find?_some found
    · next missing =>
      refine .identifier noRegister ?_
      unfold Mnemonic.ofName? at missing
      simpa using missing

/-- The tables do not name anything twice. -/
theorem wordKind_of_isWordKind {word : Text} {kind : Kind}
    (classified : IsWordKind word kind) : wordKind word = kind := by
  have noRegister (absent : ∀ register,
      (word.lowerCase, register) ∉ Register.named) :
      Register.ofName? word = none := by
    rw [Register.ofName?, List.lookup_eq_none_iff]
    rintro ⟨name, register⟩ listed
    rw [bne_iff_ne]
    rintro rfl
    exact absent register listed
  cases classified with
  | register listed =>
      have found : ∀ entry ∈ Register.named,
          Register.named.lookup entry.1 = some entry.2 := by decide
      rw [wordKind, Register.ofName?, found _ listed]
  | mnemonic absent listed named =>
      have found : ∀ mnemonic ∈ Mnemonic.all,
          Mnemonic.all.find? (·.name == mnemonic.name) = some mnemonic := by
        decide
      rw [wordKind, noRegister absent, Mnemonic.ofName?, ← named,
        found _ listed]
  | identifier absent missing =>
      have none : Mnemonic.ofName? word = none := by
        rw [Mnemonic.ofName?, List.find?_eq_none]
        simpa using missing
      rw [wordKind, noRegister absent, none]

/-! ## Tokens -/

/-- The text of a formula as it stands in a source. -/
def formulaText (formula : Text) : Text :=
  0x24 :: 0x28 :: formula ++ [0x29]

/--
The token is one that can be read in front of the given text.

Its spelling is what it is read from.
-/
inductive IsLexeme (evaluator : Option Evaluator) (line : Int)
    (after : Text) : Token → Prop where
  | newline {run : Text} (isRun : RunClass.newlines.isRun run = true)
      (ends : Stops RunClass.newlines.goesOn after) :
      IsLexeme evaluator line after ⟨.newline, line, run⟩
  | number {digits : Text} {value : Int64}
      (isRun : RunClass.numbers.isRun digits = true)
      (ends : Stops RunClass.numbers.goesOn after)
      (exact : value.toInt = Text.decimalValue digits) :
      IsLexeme evaluator line after ⟨.integer value, line, digits⟩
  | character {bytes : Text} {code : Nat}
      (first : Text.firstCharacter (bytes ++ 0x27 :: after) =
        ⟨code, bytes.length⟩)
      (nonempty : bytes ≠ []) (inLine : code ≠ lineFeed.toNat) :
      IsLexeme evaluator line after
        ⟨.integer (Int64.ofNat code), line, 0x27 :: bytes ++ [0x27]⟩
  | string {bytes : Text}
      (inside : ∀ byte ∈ bytes, byte ≠ 0x22 ∧ byte ≠ lineFeed) :
      IsLexeme evaluator line after ⟨.string, line, bytes⟩
  | word {word : Text} {kind : Kind}
      (isRun : RunClass.words.isRun word = true)
      (ends : Stops RunClass.words.goesOn after)
      (classified : IsWordKind word kind) :
      IsLexeme evaluator line after ⟨kind, line, word⟩
  | punctuation (mark : Mark) :
      IsLexeme evaluator line after ⟨.punctuation mark, line, [mark.byte]⟩
  | formula {evaluate : Evaluator} {formula : Text} {value : Int64}
      (known : evaluator = some evaluate)
      (closed : passEnclosed 1 [] (formula ++ 0x29 :: after) =
        some (0x29 :: formula.reverse, after))
      (computed : evaluate formula line = .ok value) :
      IsLexeme evaluator line after
        ⟨.integer value, line, formulaText formula⟩

/-- No token can be read from the front of the text, for this reason. -/
inductive IsRejected (evaluator : Option Evaluator) (line : Int) :
    Text → Error → Prop where
  | number {digits after : Text}
      (isRun : RunClass.numbers.isRun digits = true)
      (ends : Stops RunClass.numbers.goesOn after)
      (large : 2 ^ 63 ≤ Text.decimalValue digits) :
      IsRejected evaluator line (digits ++ after)
        (.malformed line digits .numberRange)
  | formula {evaluate : Evaluator} {formula after : Text} {cause : Cause}
      (known : evaluator = some evaluate)
      (closed : passEnclosed 1 [] (formula ++ 0x29 :: after) =
        some (0x29 :: formula.reverse, after))
      (failed : evaluate formula line = .error cause) :
      IsRejected evaluator line (formulaText formula ++ after)
        (.malformed line (formulaText formula) cause)
  | character {first : UInt8} {rest : Text}
      (noDigit : Text.isDigit first = false)
      (unread : ∀ token after, IsLexeme evaluator line after token →
        first :: rest ≠ token.spelling ++ after) :
      IsRejected evaluator line (first :: rest)
        (.illegalCharacter line
          (Text.firstCharacter (first :: rest)).code)

section

variable {evaluator : Option Evaluator} {line : Int} {text after : Text}
  {token : Token}

theorem IsLexeme.kind_ne (lexeme : IsLexeme evaluator line after token) :
    token.kind ≠ .endOfText := by
  cases lexeme with
  | word _ _ classified => cases classified <;> exact nofun
  | _ => exact nofun

theorem IsLexeme.line_eq (lexeme : IsLexeme evaluator line after token) :
    token.line = line := by
  cases lexeme <;> rfl

theorem IsLexeme.spelling_ne_nil
    (lexeme : IsLexeme evaluator line after token) :
    token.spelling ≠ [] := by
  cases lexeme with
  | newline isRun => exact RunClass.ne_nil_of_isRun isRun
  | number isRun => exact RunClass.ne_nil_of_isRun isRun
  | character => exact nofun
  | string => exact nofun
  | word isRun _ classified =>
      cases classified <;> exact RunClass.ne_nil_of_isRun isRun
  | punctuation => exact nofun
  | formula => exact nofun

/-- A token that consists of digits is their number. -/
theorem IsLexeme.integer_of_isRun
    (lexeme : IsLexeme evaluator line after token)
    (isRun : RunClass.numbers.isRun token.spelling = true) :
    ∃ value : Int64, token.kind = .integer value ∧
      value.toInt = Text.decimalValue token.spelling := by
  obtain ⟨first, rest, spelled, digit⟩ :=
    RunClass.exists_cons_of_isRun isRun
  have digit : Text.isDigit first = true := digit
  cases lexeme with
  | @newline run lines =>
      have feed := RunClass.goesOn_of_mem RunClass.newlines_mem lines
        first (by rw [show run = first :: rest from spelled]; simp)
      rw [beq_iff_eq.1 feed] at digit
      cases digit
  | number _ _ exact => exact ⟨_, rfl, exact⟩
  | character =>
      cases spelled
      cases digit
  | string =>
      cases spelled
      cases digit
  | @word word kind wordRun _ classified =>
      have same : word = first :: rest := by
        cases classified <;> exact spelled
      subst same
      simp only [RunClass.isRun, RunClass.words, Bool.and_eq_true,
        not_isWordStart_of_isDigit digit] at wordRun
      cases wordRun.1
  | punctuation mark =>
      cases mark <;> cases spelled <;> cases digit
  | formula =>
      cases spelled
      cases digit

theorem IsRejected.ne_nil {fault : Error}
    (rejected : IsRejected evaluator line text fault) : text ≠ [] := by
  cases rejected with
  | number isRun =>
      exact List.append_ne_nil_of_left_ne_nil
        (RunClass.ne_nil_of_isRun isRun) _
  | formula => exact nofun
  | character => exact nofun

/-- Digits cannot be read exactly when their number is too large. -/
theorem IsRejected.numberRange_of_isRun {digits : Text} {fault : Error}
    (rejected : IsRejected evaluator line (digits ++ after) fault)
    (isRun : RunClass.numbers.isRun digits = true)
    (ends : Stops RunClass.numbers.goesOn after) :
    2 ^ 63 ≤ Text.decimalValue digits ∧
      fault = .malformed line digits .numberRange := by
  obtain ⟨first, rest, spelled, digit⟩ :=
    RunClass.exists_cons_of_isRun isRun
  have digit : Text.isDigit first = true := digit
  generalize whole : digits ++ after = text at rejected
  cases rejected with
  | @number others _ otherRun otherEnds large =>
      have span {run rest : Text}
          (isRun : RunClass.numbers.isRun run = true)
          (ends : Stops RunClass.numbers.goesOn rest) :=
        (span_of_stops
          (RunClass.goesOn_of_mem RunClass.numbers_mem isRun) ends).1
      have same : digits = others := by
        rw [← span isRun ends, whole, span otherRun otherEnds]
      rw [same]
      exact ⟨large, rfl⟩
  | formula =>
      rw [spelled] at whole
      rw [(List.cons.inj whole).1] at digit
      cases digit
  | character noDigit =>
      rw [spelled] at whole
      rw [(List.cons.inj whole).1, noDigit] at digit
      cases digit

end

/-! ## Reading a token -/

theorem spelling_of_wordKind (word : Text) (line : Int) :
    spelling ⟨wordKind word, line, word⟩ = word := by
  unfold spelling wordKind
  dsimp only
  split
  · next found =>
    split at found
    · cases found
    · split at found <;> cases found
  · rfl

/-- A formula ends with the parenthesis that closes it. -/
theorem passEnclosed_eq_some {depth : Nat} {passed text : Text}
    {passed' rest : Text}
    (result : passEnclosed depth passed text = some (passed', rest)) :
    ∃ front, text = front ++ 0x29 :: rest ∧
      passed' = 0x29 :: (front.reverse ++ passed) := by
  fun_induction passEnclosed depth passed text with
  | case1 => cases result
  | case2 => cases result
  | case3 _ _ _ _ inductionHypothesis =>
      obtain ⟨front, rfl, rfl⟩ := inductionHypothesis result
      exact ⟨0x28 :: front, by simp, by simp⟩
  | case4 =>
      cases result
      exact ⟨[], rfl, rfl⟩
  | case5 _ _ _ _ _ _ inductionHypothesis =>
      obtain ⟨front, rfl, rfl⟩ := inductionHypothesis result
      exact ⟨0x29 :: front, by simp, by simp⟩
  | case6 => cases result
  | case7 _ _ byte _ _ _ _ _ _ _ literal inductionHypothesis =>
      obtain ⟨inner, -, rfl, rfl⟩ := passLiteral_eq_some literal
      obtain ⟨front, rfl, rfl⟩ := inductionHypothesis result
      exact ⟨byte :: inner ++ front, by simp, by simp⟩
  | case8 _ _ byte _ _ _ _ _ inductionHypothesis =>
      obtain ⟨front, rfl, rfl⟩ := inductionHypothesis result
      exact ⟨byte :: front, by simp, by simp⟩

theorem reverse_closed (formula : Text) :
    0x24 :: 0x28 :: (0x29 :: formula.reverse).reverse =
      formulaText formula := by
  simp [formulaText]

theorem byte_of_ofByte? {byte : UInt8} {mark : Mark}
    (found : Mark.ofByte? byte = some mark) : mark.byte = byte := by
  unfold Mark.ofByte? at found
  simpa using List.find?_some found

section

variable {evaluator : Option Evaluator} {line : Int} {text rest : Text}
  {scanned : Scanned}

theorem scanRun_isRun {runs : RunClass} (known : runs ∈ RunClass.all)
    {first : UInt8} (starts : runs.starts first = true) (rest : Text) :
    runs.isRun ((first :: rest).takeWhile runs.goesOn) = true ∧
      Stops runs.goesOn ((first :: rest).dropWhile runs.goesOn) ∧
      first :: rest = (first :: rest).takeWhile runs.goesOn ++
        (first :: rest).dropWhile runs.goesOn := by
  refine ⟨?_, stops_dropWhile _ _, List.takeWhile_append_dropWhile.symm⟩
  rw [List.takeWhile_cons_of_pos (RunClass.goesOn_of_starts known starts)]
  simp only [RunClass.isRun, starts, Bool.true_and]
  exact List.all_takeWhile

theorem scanNumber_isLexeme {first : UInt8}
    (digit : Text.isDigit first = true)
    (result : scanNumber line (first :: rest) = .ok scanned) :
    first :: rest = scanned.token.spelling ++ scanned.rest ∧
      IsLexeme evaluator line scanned.rest scanned.token := by
  obtain ⟨isRun, ends, whole⟩ :=
    scanRun_isRun RunClass.numbers_mem digit rest
  rw [scanNumber, Text.decimalBelow?_eq (by decide)] at result
  split at result
  · cases result
  · next found =>
    cases result
    split at found
    · next small =>
      cases found
      exact ⟨whole, .number isRun ends (Int64.toInt_ofNat_of_lt small)⟩
    · cases found

theorem scanNumber_isRejected {first : UInt8} {fault : Error}
    (digit : Text.isDigit first = true)
    (result : scanNumber line (first :: rest) = .error fault) :
    IsRejected evaluator line (first :: rest) fault := by
  obtain ⟨isRun, ends, whole⟩ :=
    scanRun_isRun RunClass.numbers_mem digit rest
  rw [scanNumber, Text.decimalBelow?_eq (by decide)] at result
  split at result
  · next absent =>
    cases result
    split at absent
    · cases absent
    · next large =>
      have rejected := @IsRejected.number evaluator line _ _ isRun ends
        (Nat.le_of_not_lt large)
      rw [← whole] at rejected
      exact rejected
  · cases result

theorem scanCharacter_isLexeme
    (result : scanCharacter line rest = .ok scanned) :
    0x27 :: rest = scanned.token.spelling ++ scanned.rest ∧
      IsLexeme evaluator line scanned.rest scanned.token := by
  have fits := Text.firstCharacter_size_le rest
  simp only [scanCharacter] at result
  split at result
  · next after found =>
    split at result
    · cases result
    · next legal =>
      cases result
      simp only [not_or] at legal
      have whole : rest.take (Text.firstCharacter rest).size ++
          0x27 :: after = rest := by
        rw [← found, List.take_append_drop]
      refine ⟨by simp [spelling, whole], .character ?_ ?_ legal.2⟩
      · rw [whole, List.length_take, Nat.min_eq_left fits]
      · intro empty
        have short := congrArg List.length empty
        rw [List.length_take, Nat.min_eq_left fits] at short
        exact legal.1 short
  · cases result

theorem scanString_isLexeme
    (result : scanString line rest = .ok scanned) :
    0x22 :: rest = scanned.token.spelling ++ scanned.rest ∧
      IsLexeme evaluator line scanned.rest scanned.token := by
  simp only [scanString] at result
  split at result
  · next after found =>
    cases result
    have whole : rest.takeWhile isStringByte ++ 0x22 :: after = rest := by
      rw [← found, List.takeWhile_append_dropWhile]
    refine ⟨by simp [spelling, whole], .string ?_⟩
    intro byte member
    have inside := List.mem_takeWhile_imp member
    simpa [isStringByte] using inside
  · cases result

theorem scanFormula_isLexeme {evaluate : Evaluator}
    (known : evaluator = some evaluate)
    (result : scanFormula evaluate line rest = .ok scanned) :
    0x24 :: 0x28 :: rest = scanned.token.spelling ++ scanned.rest ∧
      IsLexeme evaluator line scanned.rest scanned.token := by
  simp only [scanFormula_eq, formulaOutcome] at result
  split at result
  · cases result
  · next passed after found =>
    obtain ⟨formula, rfl, rfl⟩ := passEnclosed_eq_some found
    rw [List.append_nil] at found result
    rw [reverse_closed] at result
    split at result
    · cases result
    · next value computed =>
      cases result
      refine ⟨by simp [spelling, formulaText], .formula known found ?_⟩
      simpa using computed

theorem scanFormula_isRejected {evaluate : Evaluator} {fault : Error}
    (known : evaluator = some evaluate)
    (unread : ∀ token after, IsLexeme evaluator line after token →
      0x24 :: 0x28 :: rest ≠ token.spelling ++ after)
    (result : scanFormula evaluate line rest = .error fault) :
    IsRejected evaluator line (0x24 :: 0x28 :: rest) fault := by
  simp only [scanFormula_eq, formulaOutcome] at result
  split at result
  · cases result
    exact .character rfl unread
  · next passed after found =>
    obtain ⟨formula, rfl, rfl⟩ := passEnclosed_eq_some found
    rw [List.append_nil] at found result
    rw [reverse_closed] at result
    split at result
    · next cause failed =>
      cases result
      have whole : 0x24 :: 0x28 :: (formula ++ 0x29 :: after) =
          formulaText formula ++ after := by
        simp [formulaText]
      rw [whole]
      exact .formula known found (by simpa using failed)
    · cases result

/-- What is read is a lexeme, and what is left follows it. -/
theorem scanToken_isLexeme (nonempty : text ≠ [])
    (result : scanToken evaluator line text = .ok scanned) :
    text = scanned.token.spelling ++ scanned.rest ∧
      IsLexeme evaluator line scanned.rest scanned.token := by
  obtain ⟨first, rest, rfl⟩ := List.exists_cons_of_ne_nil nonempty
  simp only [scanToken_eq] at result
  split at result
  · next feed =>
    cases result
    obtain ⟨isRun, ends, whole⟩ :=
      scanRun_isRun RunClass.newlines_mem (beq_iff_eq.2 feed) rest
    exact ⟨whole, .newline isRun ends⟩
  split at result
  · next digit => exact scanNumber_isLexeme digit result
  split at result
  · next quote =>
    cases quote
    exact scanCharacter_isLexeme result
  split at result
  · next quote =>
    cases quote
    exact scanString_isLexeme result
  split at result
  · next starts =>
    cases result
    obtain ⟨isRun, ends, whole⟩ :=
      scanRun_isRun RunClass.words_mem starts rest
    refine ⟨?_, .word isRun ends (isWordKind_wordKind _)⟩
    simp only [scanRun]
    rw [spelling_of_wordKind]
    exact whole
  split at result
  · next mark found =>
    cases result
    rw [← byte_of_ofByte? found]
    exact ⟨rfl, .punctuation mark⟩
  · split at result
    · exact scanFormula_isLexeme rfl result
    · cases result

/-! ### Lexemes are read as such -/

theorem scanNumber_of_isRun {digits after : Text} {value : Int64}
    (isRun : RunClass.numbers.isRun digits = true)
    (ends : Stops RunClass.numbers.goesOn after)
    (exact : value.toInt = Text.decimalValue digits) :
    scanNumber line (digits ++ after) =
      .ok ⟨⟨.integer value, line, digits⟩, after⟩ := by
  obtain ⟨front, back⟩ := span_of_stops
    (RunClass.goesOn_of_mem RunClass.numbers_mem isRun) ends
  simp only [RunClass.numbers] at front back
  have small : Text.decimalValue digits < 0x8000000000000000 := by
    have bounded := value.toInt_lt
    omega
  have same : Int64.ofNat (Text.decimalValue digits) = value := by
    rw [← Int64.toInt_inj, exact, Int64.toInt_ofNat_of_lt small]
  simp only [scanNumber, front, back]
  rw [Text.decimalBelow?_eq (by decide), if_pos small]
  simp only [same]

theorem scanCharacter_of_firstCharacter {bytes after : Text} {code : Nat}
    (first : Text.firstCharacter (bytes ++ 0x27 :: after) =
      ⟨code, bytes.length⟩)
    (nonempty : bytes ≠ []) (inLine : code ≠ lineFeed.toNat) :
    scanCharacter line (bytes ++ 0x27 :: after) =
      .ok ⟨⟨.integer (Int64.ofNat code), line, 0x27 :: bytes ++ [0x27]⟩,
        after⟩ := by
  have legal : ¬(bytes.length = 0 ∨ code = lineFeed.toNat) := by
    simp [nonempty, inLine]
  simp only [scanCharacter, first, List.drop_left, List.take_left,
    if_neg legal]

theorem scanString_of_inside {bytes after : Text}
    (inside : ∀ byte ∈ bytes, byte ≠ 0x22 ∧ byte ≠ lineFeed) :
    scanString line (bytes ++ 0x22 :: after) =
      .ok ⟨⟨.string, line, bytes⟩, after⟩ := by
  obtain ⟨front, back⟩ := @span_of_stops isStringByte bytes (0x22 :: after)
    (by simpa [isStringByte] using inside)
    (by simp [Stops, isStringByte])
  simp only [scanString, front, back]

/-- Every lexeme is read where it stands. -/
theorem scanToken_of_isLexeme {after : Text} {token : Token}
    (lexeme : IsLexeme evaluator line after token) :
    scanToken evaluator line (token.spelling ++ after) =
      .ok ⟨token, after⟩ := by
  cases lexeme with
  | @newline run isRun ends =>
      obtain ⟨front, back⟩ := span_of_stops
        (RunClass.goesOn_of_mem RunClass.newlines_mem isRun) ends
      obtain ⟨first, rest, rfl, starts⟩ :=
        RunClass.exists_cons_of_isRun isRun
      simp only [RunClass.newlines, List.cons_append] at front back
      simp only [spelling, List.cons_append, scanToken_eq, scanRun,
        if_pos (beq_iff_eq.1 starts), front, back]
  | @number digits value isRun ends exact =>
      have read := @scanNumber_of_isRun line _ _ _ isRun ends exact
      obtain ⟨first, rest, rfl, starts⟩ :=
        RunClass.exists_cons_of_isRun isRun
      have digit : Text.isDigit first = true := starts
      have noFeed : first ≠ lineFeed := by
        rintro rfl
        cases digit
      simp only [spelling, List.cons_append, scanToken_eq, if_neg noFeed,
        if_pos digit]
      exact read
  | character first nonempty inLine =>
      rw [← scanCharacter_of_firstCharacter first nonempty inLine]
      simp only [spelling, List.cons_append, List.append_assoc, scanToken_eq]
      rfl
  | string inside =>
      rw [← scanString_of_inside inside]
      simp only [spelling, List.cons_append, List.append_assoc, scanToken_eq]
      rfl
  | @word word kind isRun ends classified =>
      obtain ⟨front, back⟩ := span_of_stops
        (RunClass.goesOn_of_mem RunClass.words_mem isRun) ends
      obtain rfl := wordKind_of_isWordKind classified
      rw [spelling_of_wordKind]
      obtain ⟨first, rest, rfl, starts⟩ :=
        RunClass.exists_cons_of_isRun isRun
      have wordStart : isWordStart first = true := starts
      have other {byte : UInt8} (no : isWordStart byte = false) :
          first ≠ byte := by
        rintro rfl
        rw [no] at wordStart
        cases wordStart
      have noDigit : ¬Text.isDigit first = true := by
        intro digit
        rw [not_isWordStart_of_isDigit digit] at wordStart
        cases wordStart
      have noFeed : first ≠ lineFeed := other rfl
      have noQuote : first ≠ 0x27 ∧ first ≠ 0x22 := ⟨other rfl, other rfl⟩
      simp only [RunClass.words, List.cons_append] at front back
      simp only [List.cons_append, scanToken_eq, scanRun, if_neg noFeed,
        if_neg noDigit, if_neg noQuote.1, if_neg noQuote.2,
        if_pos wordStart, front, back]
  | punctuation mark => cases mark <;> rfl
  | @formula evaluate formula value known closed computed =>
      subst known
      have whole : spelling ⟨.integer value, line, formulaText formula⟩ ++
          after = 0x24 :: 0x28 :: (formula ++ 0x29 :: after) := by
        simp [spelling, formulaText]
      have read : scanFormula evaluate line (formula ++ 0x29 :: after) =
          .ok ⟨⟨.integer value, line, formulaText formula⟩, after⟩ := by
        simp only [scanFormula_eq, formulaOutcome, closed,
          List.drop_succ_cons, List.drop_zero, List.reverse_reverse,
          computed, reverse_closed]
      rw [whole, ← read]
      rfl

/-- An error is reported only where no token can be read. -/
theorem scanToken_isRejected {fault : Error}
    (result : scanToken evaluator line text = .error fault) :
    IsRejected evaluator line text fault := by
  have unread : ∀ token after, IsLexeme evaluator line after token →
      text ≠ token.spelling ++ after := by
    rintro token after lexeme rfl
    rw [scanToken_of_isLexeme lexeme] at result
    cases result
  cases text with
  | nil => cases result
  | cons first rest =>
      simp only [scanToken_eq] at result
      split at result
      · cases result
      split at result
      · next digit => exact scanNumber_isRejected digit result
      next noDigit =>
      rw [Bool.not_eq_true] at noDigit
      split at result
      · next quote =>
        cases quote
        simp only [scanCharacter] at result
        split at result
        · split at result <;> cases result
          exact .character noDigit unread
        · cases result
          exact .character noDigit unread
      split at result
      · next quote =>
        cases quote
        simp only [scanString] at result
        split at result <;> cases result
        exact .character noDigit unread
      split at result
      · cases result
      split at result
      · cases result
      · split at result
        · exact scanFormula_isRejected rfl unread result
        · cases result
          exact .character noDigit unread

end

end Token

end FlatAsm
