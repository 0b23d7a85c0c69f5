import FlatAsm.Error
import FlatAsm.Token
import FlatAsm.Token.Enclosed

/-!
# Reading tokens

`scanToken` reads one token from the front of a text that starts with no
blank, and `tokenize` reads a whole text.  Reading never goes back: each
token leaves less text than there was before it.

Formulas are computed on the way, by an evaluator that may have effects of its
own: a reader that asks for them (`scanTokenIn`, `tokenizeIn`) is given first,
and the one without effects is a case of it.
-/

namespace FlatAsm

/-- Computes a formula that stands on a line, with effects. -/
abbrev EvaluatorIn (m : Type → Type) := Text → Int → m (Except Cause Int64)

/-- Computes a formula that stands on a line. -/
abbrev Evaluator := Text → Int → Except Cause Int64

namespace Token

/-- Blanks separate tokens and mean nothing else. -/
def isBlank (byte : UInt8) : Bool :=
  byte = 0x20 || byte = 0x09 || byte = 0x0d

/-- A byte that may start a word. -/
def isWordStart (byte : UInt8) : Bool :=
  byte = 0x5f || (0x61 ≤ byte && byte ≤ 0x7a) ||
    (0x41 ≤ byte && byte ≤ 0x5a)

/-- A byte that may stand in a word. -/
def isWordByte (byte : UInt8) : Bool :=
  isWordStart byte || Text.isDigit byte

/-- Is the text one word, and nothing else? -/
def isWord : Text → Bool
  | [] => false
  | first :: rest => isWordStart first && rest.all isWordByte

/-- What a word stands for: a register, else a mnemonic, else a name. -/
def wordKind (word : Text) : Kind :=
  match Register.ofName? word with
  | some register => .register register
  | none =>
      match Mnemonic.ofName? word with
      | some mnemonic => .mnemonic mnemonic
      | none => .identifier

/-- A token and the text after it. -/
structure Scanned where
  token : Token
  rest : Text

/-- Complain about the first character of a text. -/
def illegal (line : Int) (text : Text) : Except Error Scanned :=
  .error (.illegalCharacter line (Text.firstCharacter text).code)

/-- A token that consists of the longest run of certain bytes. -/
def scanRun (kind : Text → Kind) (line : Int) (member : UInt8 → Bool)
    (text : Text) : Scanned :=
  let run := text.takeWhile member
  ⟨⟨kind run, line, run⟩, text.dropWhile member⟩

/-- A decimal number. -/
def scanNumber (line : Int) (text : Text) : Except Error Scanned :=
  let digits := text.takeWhile Text.isDigit
  match Text.decimalBelow? 0x8000000000000000 digits with
  | none => .error (.malformed line digits .numberRange)
  | some value =>
      .ok ⟨⟨.integer (Int64.ofNat value), line, digits⟩,
        text.dropWhile Text.isDigit⟩

/-- The number of a character between single quotes; `rest` follows the
first of them. -/
def scanCharacter (line : Int) (rest : Text) : Except Error Scanned :=
  let character := Text.firstCharacter rest
  match rest.drop character.size with
  | 0x27 :: after =>
      if character.size = 0 ∨ character.code = lineFeed.toNat then
        illegal line (0x27 :: rest)
      else
        .ok ⟨⟨.integer (Int64.ofNat character.code), line,
          0x27 :: rest.take character.size ++ [0x27]⟩, after⟩
  | _ => illegal line (0x27 :: rest)

/-- Bytes that go on a string. -/
def isStringByte (byte : UInt8) : Bool :=
  byte != 0x22 && byte != lineFeed

/-- A string up to the next double quote on the line; `rest` follows the
first one. -/
def scanString (line : Int) (rest : Text) : Except Error Scanned :=
  match rest.dropWhile isStringByte with
  | 0x22 :: after => .ok ⟨⟨.string, line, rest.takeWhile isStringByte⟩, after⟩
  | _ => illegal line (0x22 :: rest)

/-- What a text starts with, where formulas are computed by an `ε`. -/
inductive Front (ε : Type) where
  /-- A token. -/
  | token (scanned : Scanned)
  /-- A formula that is still to be computed, its spelling, and the text after
  it. -/
  | formula (evaluate : ε) (formula spelling rest : Text)

namespace Front

/-- The text after what a text starts with. -/
def rest {ε : Type} : Front ε → Text
  | .token scanned => scanned.rest
  | .formula _ _ _ rest => rest

/-- Is there nothing left to be read? -/
def IsFinal {ε : Type} : Front ε → Prop
  | .token scanned => scanned.token.kind = .endOfText
  | .formula _ _ _ _ => False

end Front

/-- A formula; `rest` follows the parenthesis that opens it. -/
def readFormula {ε : Type} (evaluate : ε) (line : Int) (rest : Text) :
    Except Error (Front ε) :=
  match passEnclosed 1 [] rest with
  | none => (illegal line (0x24 :: 0x28 :: rest)).map .token
  | some (passed, after) =>
      .ok (.formula evaluate (passed.drop 1).reverse
        (0x24 :: 0x28 :: passed.reverse) after)

/--
Find out what a text starts with, if it does not start with a blank.

Without an evaluator formulas are not part of the language.
-/
def readFront {ε : Type} (evaluator : Option ε) (line : Int) (text : Text) :
    Except Error (Front ε) :=
  match text with
  | [] => .ok (.token ⟨⟨.endOfText, line, []⟩, []⟩)
  | first :: rest =>
      if first = lineFeed then
        .ok (.token (scanRun (fun _ => .newline) line (· == lineFeed) text))
      else if Text.isDigit first then (scanNumber line text).map .token
      else if first = 0x27 then (scanCharacter line rest).map .token
      else if first = 0x22 then (scanString line rest).map .token
      else if isWordStart first then
        .ok (.token (scanRun wordKind line isWordByte text))
      else
        match Mark.ofByte? first with
        | some mark =>
            .ok (.token ⟨⟨.punctuation mark, line, [first]⟩, rest⟩)
        | none =>
            match evaluator, first, rest with
            | some evaluate, 0x24, 0x28 :: inner =>
                readFormula evaluate line inner
            | _, _, _ => (illegal line text).map .token

/-- What is read where a formula has been computed, or not. -/
def formulaOutcome (line : Int) (spelling rest : Text) :
    Except Cause Int64 → Except Error Scanned
  | .error cause => .error (.malformed line spelling cause)
  | .ok value => .ok ⟨⟨.integer value, line, spelling⟩, rest⟩

/-- Compute the formula that a text starts with, if it starts with one. -/
def computeFront {m : Type → Type} [Monad m] (line : Int) :
    Except Error (Front (EvaluatorIn m)) → m (Except Error Scanned)
  | .error fault => pure (.error fault)
  | .ok (.token scanned) => pure (.ok scanned)
  | .ok (.formula evaluate formula spelling rest) => do
      return formulaOutcome line spelling rest (← evaluate formula line)

/--
Read the token at the front of a text that does not start with a blank.

The evaluator is asked for the value of a formula where one stands there.
-/
def scanTokenIn {m : Type → Type} [Monad m]
    (evaluator : Option (EvaluatorIn m)) (line : Int) (text : Text) :
    m (Except Error Scanned) :=
  computeFront line (readFront evaluator line text)

/-- Read the token at the front of a text that does not start with a blank. -/
def scanToken (evaluator : Option Evaluator) (line : Int) (text : Text) :
    Except Error Scanned :=
  scanTokenIn (m := Id) evaluator line text

/-- The value of a formula; `rest` follows the parenthesis that opens it. -/
def scanFormula (evaluate : Evaluator) (line : Int) (rest : Text) :
    Except Error Scanned :=
  computeFront (m := Id) line (readFormula evaluate line rest)

theorem scanFormula_eq (evaluate : Evaluator) (line : Int) (rest : Text) :
    scanFormula evaluate line rest =
      match passEnclosed 1 [] rest with
      | none => illegal line (0x24 :: 0x28 :: rest)
      | some (passed, after) =>
          formulaOutcome line (0x24 :: 0x28 :: passed.reverse) after
            (evaluate (passed.drop 1).reverse line) := by
  unfold scanFormula readFormula
  cases passEnclosed 1 [] rest <;> rfl

/-- Without effects a formula is computed where it is read. -/
theorem scanToken_eq (evaluator : Option Evaluator) (line : Int)
    (text : Text) :
    scanToken evaluator line text =
      match text with
      | [] => .ok ⟨⟨.endOfText, line, []⟩, []⟩
      | first :: rest =>
          if first = lineFeed then
            .ok (scanRun (fun _ => .newline) line (· == lineFeed) text)
          else if Text.isDigit first then scanNumber line text
          else if first = 0x27 then scanCharacter line rest
          else if first = 0x22 then scanString line rest
          else if isWordStart first then
            .ok (scanRun wordKind line isWordByte text)
          else
            match Mark.ofByte? first with
            | some mark => .ok ⟨⟨.punctuation mark, line, [first]⟩, rest⟩
            | none =>
                match evaluator, first, rest with
                | some evaluate, 0x24, 0x28 :: inner =>
                    scanFormula evaluate line inner
                | _, _, _ => illegal line text := by
  unfold scanToken scanTokenIn readFront
  split
  · rfl
  · next first rest =>
    split
    · rfl
    split
    · cases scanNumber line (first :: rest) <;> rfl
    split
    · cases scanCharacter line rest <;> rfl
    split
    · cases scanString line rest <;> rfl
    split
    · rfl
    split
    · rfl
    · split
      · rfl
      · next noFormula =>
        split
        · exact (noFormula _ _ rfl rfl rfl).elim
        · rfl

theorem length_dropWhile_lt {member : UInt8 → Bool} {first : UInt8}
    {rest : Text} (starts : member first = true) :
    ((first :: rest).dropWhile member).length < (first :: rest).length := by
  rw [List.dropWhile_cons, if_pos starts]
  exact Nat.lt_succ_of_le (List.dropWhile_sublist _).length_le

theorem passEnclosed_length_lt {depth : Nat} {passed text : Text}
    {passed' rest : Text}
    (result : passEnclosed depth passed text = some (passed', rest)) :
    rest.length < text.length := by
  fun_induction passEnclosed depth passed text <;>
    grind [→ passLiteral_length_lt]

theorem map_token_eq_ok_iff {ε : Type} {outcome : Except Error Scanned}
    {front : Front ε} :
    outcome.map Front.token = .ok front ↔
      ∃ scanned, outcome = .ok scanned ∧ front = .token scanned := by
  cases outcome <;> simp [Except.map, eq_comm]

theorem scanNumber_length_lt {line : Int} {first : UInt8} {rest : Text}
    {scanned : Scanned} (digit : Text.isDigit first = true)
    (result : scanNumber line (first :: rest) = .ok scanned) :
    scanned.rest.length < (first :: rest).length := by
  simp only [scanNumber] at result
  split at result
  · cases result
  · cases result
    exact length_dropWhile_lt digit

theorem scanCharacter_length_lt {line : Int} {rest : Text}
    {scanned : Scanned} (result : scanCharacter line rest = .ok scanned) :
    scanned.rest.length < rest.length := by
  simp only [scanCharacter] at result
  split at result
  · next after found =>
    split at result
    · cases result
    · cases result
      have shorter := congrArg List.length found
      simp only [List.length_drop, List.length_cons] at shorter ⊢
      omega
  · cases result

theorem scanString_length_lt {line : Int} {rest : Text}
    {scanned : Scanned} (result : scanString line rest = .ok scanned) :
    scanned.rest.length < rest.length := by
  simp only [scanString] at result
  split at result
  · next after found =>
    cases result
    have shorter :=
      (List.dropWhile_sublist isStringByte (l := rest)).length_le
    rw [found] at shorter
    exact shorter
  · cases result

theorem readFormula_length_lt {ε : Type} {evaluate : ε} {line : Int}
    {rest : Text} {front : Front ε}
    (result : readFormula evaluate line rest = .ok front) :
    front.rest.length < rest.length := by
  simp only [readFormula] at result
  split at result
  · cases result
  · next passed after found =>
    cases result
    exact passEnclosed_length_lt found

/-- Every token but the last one takes some text. -/
theorem readFront_length_lt {ε : Type} {evaluator : Option ε} {line : Int}
    {text : Text} {front : Front ε}
    (result : readFront evaluator line text = .ok front)
    (inside : ¬ front.IsFinal) : front.rest.length < text.length := by
  unfold readFront at result
  split at result
  · cases result
    exact absurd rfl inside
  · next first rest =>
    split at result
    · next feed =>
      cases result
      exact @length_dropWhile_lt (· == lineFeed) first rest
        (beq_iff_eq.2 feed)
    split at result
    · next digit =>
      obtain ⟨scanned, read, rfl⟩ := map_token_eq_ok_iff.1 result
      exact scanNumber_length_lt digit read
    split at result
    · obtain ⟨scanned, read, rfl⟩ := map_token_eq_ok_iff.1 result
      exact Nat.lt_succ_of_lt (scanCharacter_length_lt read)
    split at result
    · obtain ⟨scanned, read, rfl⟩ := map_token_eq_ok_iff.1 result
      exact Nat.lt_succ_of_lt (scanString_length_lt read)
    split at result
    · next starts =>
      cases result
      exact length_dropWhile_lt (by simp [isWordByte, starts])
    split at result
    · cases result
      exact Nat.lt_succ_self _
    · split at result
      · exact Nat.lt_succ_of_lt
          (Nat.lt_succ_of_lt (readFormula_length_lt result))
      · cases result

theorem formulaOutcome_eq_ok_iff {line : Int} {spelling rest : Text}
    {answer : Except Cause Int64} {scanned : Scanned} :
    formulaOutcome line spelling rest answer = .ok scanned ↔
      ∃ value, answer = .ok value ∧
        scanned = ⟨⟨.integer value, line, spelling⟩, rest⟩ := by
  cases answer <;> simp [formulaOutcome, eq_comm]

theorem scanToken_length_lt {evaluator : Option Evaluator} {line : Int}
    {text : Text} {scanned : Scanned}
    (result : scanToken evaluator line text = .ok scanned)
    (inside : scanned.token.kind ≠ .endOfText) :
    scanned.rest.length < text.length := by
  unfold scanToken scanTokenIn at result
  cases front : readFront evaluator line text with
  | error fault =>
      rw [front] at result
      cases result
  | ok read =>
      rw [front] at result
      cases read with
      | token found =>
          cases result
          exact readFront_length_lt front inside
      | formula evaluate formula spelling rest =>
          obtain ⟨value, -, rfl⟩ := formulaOutcome_eq_ok_iff.1 result
          exact readFront_length_lt front not_false

end Token

/-- The tokens of a text, up to its end or to the first error. -/
structure TokenStream where
  tokens : List Token
  fault : Option Error
  deriving DecidableEq, Repr

namespace TokenStream

section

variable {m : Type → Type} [Monad m]

/-- Read the tokens of a text, onto tokens before it, held in reverse. -/
@[specialize]
def scanOntoIn (evaluator : Option (EvaluatorIn m)) (reversed : List Token)
    (line : Int) (text : Text) : m TokenStream :=
  match _read :
      Token.readFront evaluator line (text.dropWhile Token.isBlank) with
  | .error fault => pure ⟨reversed.reverse, some fault⟩
  | .ok (.token scanned) =>
      if _final : scanned.token.kind = .endOfText then
        pure ⟨(scanned.token :: reversed).reverse, none⟩
      else
        scanOntoIn evaluator (scanned.token :: reversed)
          (line + scanned.token.lineEnds) scanned.rest
  | .ok (.formula evaluate formula spelling rest) => do
      match Token.formulaOutcome line spelling rest
        (← evaluate formula line) with
      | .error fault => return ⟨reversed.reverse, some fault⟩
      | .ok scanned =>
          scanOntoIn evaluator (scanned.token :: reversed) line rest
termination_by text.length
decreasing_by
  · exact Nat.lt_of_lt_of_le (Token.readFront_length_lt _read _final)
      (List.dropWhile_sublist _).length_le
  · exact Nat.lt_of_lt_of_le (Token.readFront_length_lt _read not_false)
      (List.dropWhile_sublist _).length_le

/-- A text is read token by token. -/
theorem scanOntoIn_eq [LawfulMonad m] (evaluator : Option (EvaluatorIn m))
    (reversed : List Token) (line : Int) (text : Text) :
    scanOntoIn evaluator reversed line text = (do
      match ← Token.scanTokenIn evaluator line
        (text.dropWhile Token.isBlank) with
      | .error fault => return ⟨reversed.reverse, some fault⟩
      | .ok scanned =>
          if scanned.token.kind = .endOfText then
            return ⟨(scanned.token :: reversed).reverse, none⟩
          else
            scanOntoIn evaluator (scanned.token :: reversed)
              (line + scanned.token.lineEnds) scanned.rest) := by
  rw [scanOntoIn, Token.scanTokenIn]
  cases Token.readFront evaluator line (text.dropWhile Token.isBlank) with
  | error fault => simp [Token.computeFront]
  | ok front =>
      cases front with
      | token scanned => simp [Token.computeFront]
      | formula evaluate formula spelling rest =>
          simp only [Token.computeFront, bind_assoc, pure_bind]
          refine bind_congr fun answer => ?_
          cases answer <;> simp [Token.formulaOutcome, Token.lineEnds]

end

/-- Read the tokens of a text, onto tokens before it, held in reverse. -/
def scanOnto (evaluator : Option Evaluator) (reversed : List Token)
    (line : Int) (text : Text) : TokenStream :=
  scanOntoIn (m := Id) evaluator reversed line text

section

variable (evaluator : Option Evaluator)

theorem scanOnto_eq (reversed : List Token) (line : Int) (text : Text) :
    scanOnto evaluator reversed line text =
      match Token.scanToken evaluator line
        (text.dropWhile Token.isBlank) with
      | .error fault => ⟨reversed.reverse, some fault⟩
      | .ok scanned =>
          if scanned.token.kind = .endOfText then
            ⟨(scanned.token :: reversed).reverse, none⟩
          else
            scanOnto evaluator (scanned.token :: reversed)
              (line + scanned.token.lineEnds) scanned.rest :=
  scanOntoIn_eq (m := Id) evaluator reversed line text

/-- What holds where reading ends holds wherever it has started. -/
@[elab_as_elim]
theorem scanOnto_induct {motive : List Token → Int → Text → Prop}
    (failed : ∀ reversed line text fault,
      Token.scanToken evaluator line (text.dropWhile Token.isBlank) =
        .error fault → motive reversed line text)
    (ended : ∀ reversed line text scanned,
      Token.scanToken evaluator line (text.dropWhile Token.isBlank) =
        .ok scanned → scanned.token.kind = .endOfText →
          motive reversed line text)
    (inside : ∀ reversed line text scanned,
      Token.scanToken evaluator line (text.dropWhile Token.isBlank) =
        .ok scanned → scanned.token.kind ≠ .endOfText →
          motive (scanned.token :: reversed)
            (line + scanned.token.lineEnds) scanned.rest →
          motive reversed line text)
    (reversed : List Token) (line : Int) (text : Text) :
    motive reversed line text := by
  induction size : text.length using Nat.strongRecOn
    generalizing reversed line text with
  | ind size inductionHypothesis =>
  cases scan : Token.scanToken evaluator line
      (text.dropWhile Token.isBlank) with
  | error fault => exact failed _ _ _ fault scan
  | ok scanned =>
      by_cases final : scanned.token.kind = .endOfText
      · exact ended _ _ _ scanned scan final
      · refine inside _ _ _ scanned scan final ?_
        refine inductionHypothesis _ ?_ _ _ _ rfl
        rw [← size]
        exact Nat.lt_of_lt_of_le (Token.scanToken_length_lt scan final)
          (List.dropWhile_sublist _).length_le

end

end TokenStream

/--
The tokens of a text.

They end with the one for the end of the text, unless there is an error.
-/
def tokenizeIn {m : Type → Type} [Monad m]
    (evaluator : Option (EvaluatorIn m)) (text : Text) : m TokenStream :=
  TokenStream.scanOntoIn evaluator [] 1 text

/-- The tokens of a text, where formulas are computed without effects. -/
def tokenize (evaluator : Option Evaluator) (text : Text) : TokenStream :=
  tokenizeIn (m := Id) evaluator text

end FlatAsm
