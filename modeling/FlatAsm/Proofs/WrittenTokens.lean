import FlatAsm.Proofs.SourceSpans
import FlatAsm.Proofs.WrittenSums

/-!
# Texts written token by token

A text that is written from tokens is read as these tokens again, provided
that words and numbers do not run into each other.  What a piece of text is
read as is said for any text behind it, so that pieces can be joined.
-/

namespace FlatAsm.TokenStream

variable {evaluator : Option Evaluator} {line : Int} {text front back : Text}
  {tokens others : List Token}

/--
The text is read as these tokens, all of them on one line.

What follows must not go on a word or a number at the end of the text.
-/
def Reads (evaluator : Option Evaluator) (line : Int) (text : Text)
    (tokens : List Token) : Prop :=
  ∀ rest, Token.Stops Token.isWordByte rest →
    scanFrom evaluator line (text ++ rest) =
      after tokens (scanFrom evaluator line rest)

theorem reads_nil : Reads evaluator line [] [] :=
  fun _ _ => rfl

theorem stops_nil : Token.Stops Token.isWordByte [] := by
  rintro byte ⟨⟩

theorem stops_append {rest : Text}
    (stops : Token.Stops Token.isWordByte text)
    (ends : Token.Stops Token.isWordByte rest) :
    Token.Stops Token.isWordByte (text ++ rest) := by
  cases text with
  | nil => exact ends
  | cons first others => exact stops

/-- Pieces can be joined where no word or number goes on. -/
theorem Reads.append (first : Reads evaluator line front tokens)
    (second : Reads evaluator line back others)
    (stops : Token.Stops Token.isWordByte back) :
    Reads evaluator line (front ++ back) (tokens ++ others) := by
  intro rest ends
  rw [List.append_assoc, first _ (stops_append stops ends),
    second rest ends, after_append]

/-- A whole text has the end of the text behind it. -/
theorem Reads.tokenize_eq (reads : Reads evaluator 1 text tokens) :
    tokenize evaluator text = ⟨tokens ++ [⟨.endOfText, 1, []⟩], none⟩ := by
  have whole := reads [] stops_nil
  rw [List.append_nil, scanFrom_nil] at whole
  exact whole

/-- A token can be put in front if it ends before what follows. -/
theorem Reads.cons {token : Token} {first : UInt8} {spelling : Text}
    (spelled : token.spelling = first :: spelling)
    (solid : Token.isBlank first = false) (inLine : token.lineEnds = 0)
    (lexeme : ∀ rest, Token.Stops Token.isWordByte rest →
      Token.IsLexeme evaluator line (text ++ rest) token)
    (reads : Reads evaluator line text tokens) :
    Reads evaluator line (first :: spelling ++ text) (token :: tokens) := by
  intro rest ends
  have here := lexeme rest ends
  have scan := Token.scanToken_of_isLexeme here
  rw [spelled] at scan
  have noBlanks : (first :: spelling ++ text ++ rest).dropWhile
      Token.isBlank = first :: spelling ++ (text ++ rest) := by
    rw [List.append_assoc]
    exact List.dropWhile_cons_of_neg (by simp [solid])
  rw [← noBlanks] at scan
  rw [scanFrom_of_ok scan here.kind_ne]
  dsimp only
  rw [inLine, Int.natCast_zero, Int.add_zero, reads rest ends,
    ← after_append]
  rfl

/-- The token of a word. -/
def wordToken (line : Int) (word : Text) : Token :=
  ⟨Token.wordKind word, line, word⟩

/-- The token of a number. -/
def numberToken (line : Int) (number : Nat) : Token :=
  ⟨.integer (Int64.ofNat number), line, Text.ofNat number⟩

/-- The token of a mark. -/
def markToken (line : Int) (mark : Mark) : Token :=
  ⟨.punctuation mark, line, [mark.byte]⟩

theorem stops_mark (mark : Mark) (text : Text) :
    Token.Stops Token.isWordByte (mark.byte :: text) := by
  rintro byte ⟨⟩
  cases mark <;> rfl

theorem stops_blank (text : Text) :
    Token.Stops Token.isWordByte (0x20 :: text) := by
  rintro byte ⟨⟩
  rfl

theorem Reads.word {word : Text} (isWord : Token.isWord word = true)
    (stops : Token.Stops Token.isWordByte text)
    (reads : Reads evaluator line text tokens) :
    Reads evaluator line (word ++ text)
      (wordToken line word :: tokens) := by
  have isRun := Token.isRun_of_isWord isWord
  obtain ⟨first, rest, split, starts⟩ :=
    Token.RunClass.exists_cons_of_isRun isRun
  have spelled := Token.spelling_of_wordKind word line
  have inLine : (wordToken line word).lineEnds = 0 := by
    have inside := Token.wordKind_inside word line word
    unfold Token.lineEnds wordToken
    split
    · next newline =>
      dsimp only at newline
      simp [Token.endsStatement, newline] at inside
    · rfl
  rw [split] at spelled ⊢
  refine reads.cons spelled
    (Token.RunClass.not_isBlank_of_starts Token.RunClass.words_mem starts)
    (split ▸ inLine) fun rest ends => ?_
  rw [← split]
  exact .word isRun (stops_append stops ends)
    (Token.isWordKind_wordKind word)

theorem Reads.number {number : Nat} (small : number < 2 ^ 63)
    (stops : Token.Stops Token.isWordByte text)
    (reads : Reads evaluator line text tokens) :
    Reads evaluator line (Text.ofNat number ++ text)
      (numberToken line number :: tokens) := by
  have isRun := Text.isRun_ofNat number
  obtain ⟨first, rest, split, starts⟩ :=
    Token.RunClass.exists_cons_of_isRun isRun
  have value : (Int64.ofNat number).toInt =
      Text.decimalValue (Text.ofNat number) := by
    rw [Text.decimalValue_ofNat, Int64.toInt_ofNat_of_lt small]
  rw [split]
  refine reads.cons split
    (Token.RunClass.not_isBlank_of_starts Token.RunClass.numbers_mem starts)
    rfl fun rest ends => ?_
  refine .number isRun (fun byte head => ?_) value
  have outside := stops_append stops ends byte head
  exact (Bool.or_eq_false_iff.1 outside).2

theorem reads_word (evaluator : Option Evaluator) (line : Int)
    {word : Text} (isWord : Token.isWord word = true) :
    Reads evaluator line word [wordToken line word] := by
  have reads := (@reads_nil evaluator line).word isWord stops_nil
  rwa [List.append_nil] at reads

theorem reads_number (evaluator : Option Evaluator) (line : Int)
    {number : Nat} (small : number < 2 ^ 63) :
    Reads evaluator line (Text.ofNat number) [numberToken line number] := by
  have reads := (@reads_nil evaluator line).number small stops_nil
  rwa [List.append_nil] at reads

theorem Reads.mark (mark : Mark)
    (reads : Reads evaluator line text tokens) :
    Reads evaluator line (mark.byte :: text)
      (markToken line mark :: tokens) := by
  have solid : Token.isBlank mark.byte = false := by
    cases mark <;> rfl
  exact reads.cons rfl solid rfl fun rest _ => .punctuation mark

/-- Blanks in front of a piece make no difference. -/
theorem Reads.blank (reads : Reads evaluator line text tokens) :
    Reads evaluator line (0x20 :: text) tokens := by
  intro rest ends
  rw [← reads rest ends]
  have same : (0x20 :: text ++ rest).dropWhile Token.isBlank =
      (text ++ rest).dropWhile Token.isBlank := rfl
  cases scan : Token.scanToken evaluator line
      ((text ++ rest).dropWhile Token.isBlank) with
  | error fault =>
      rw [scanFrom_of_error scan, scanFrom_of_error (same ▸ scan)]
  | ok scanned =>
      rw [scanFrom, scanFrom, scanOnto_of_ok scan,
        scanOnto_of_ok (same ▸ scan)]

end FlatAsm.TokenStream
