import FlatAsm.Token.Scan
import Mathlib.Data.List.TakeWhile

/-!
# Reading a text line by line

No token goes on after the end of its line.  So the tokens of a line are the
same whatever follows it, and an error on a line is found before anything
after it is looked at.  Only a run of line ends, which is one token, can be
longer if more line ends follow.

Where the lines are numbered from matters for the numbers alone.
-/

namespace FlatAsm

/-! ## Bytes up to a line end -/

section

variable {member : UInt8 → Bool} (stops : member Token.lineFeed = false)

include stops

theorem takeWhile_line (line back : Text) :
    (line ++ Token.lineFeed :: back).takeWhile member =
      line.takeWhile member := by
  induction line with
  | nil => simp [stops]
  | cons byte rest inductionHypothesis =>
      rw [List.cons_append, List.takeWhile_cons, List.takeWhile_cons,
        inductionHypothesis]

theorem dropWhile_line (line back : Text) :
    (line ++ Token.lineFeed :: back).dropWhile member =
      line.dropWhile member ++ Token.lineFeed :: back := by
  induction line with
  | nil => simp [stops]
  | cons byte rest inductionHypothesis =>
      rw [List.cons_append, List.dropWhile_cons, List.dropWhile_cons,
        inductionHypothesis]
      split <;> rfl

end

namespace Text

theorem firstCharacter_size_le (text : Text) :
    (firstCharacter text).size ≤ text.length := by
  unfold firstCharacter
  grind [illFormed]

/-- A character is read from its line alone. -/
theorem firstCharacter_line {line : Text} (nonempty : line ≠ [])
    (back : Text) :
    firstCharacter (line ++ Token.lineFeed :: back) =
      firstCharacter line := by
  have ended : isContinuation Token.lineFeed = false := by decide
  rcases line with _ | ⟨first, _ | ⟨second, _ | ⟨third, _ | rest⟩⟩⟩
  · exact absurd rfl nonempty
  all_goals simp [firstCharacter, ended]
  all_goals grind

end Text

namespace Token

/-! ## One token -/

section

variable {line : Text} (inside : lineFeed ∉ line) (back : Text)

include inside

theorem passLiteral_line (quote : UInt8) (passed : Text) :
    passLiteral quote passed (line ++ lineFeed :: back) =
      (passLiteral quote passed line).map
        (Prod.map id (· ++ lineFeed :: back)) := by
  fun_induction passLiteral quote passed line with
  | case1 => simp [passLiteral.eq_def]
  | case2 => simp at inside
  | case3 => simp [passLiteral, lineFeed]
  | case4 => simp at inside
  | case5 passed escaped after notFeed notFeed' inductionHypothesis =>
      simp only [List.mem_cons, not_or] at inside
      rw [← inductionHypothesis inside.2.2]
      simp [passLiteral, notFeed, notFeed']
  | case6 passed rest notFeed notEscape =>
      simp [passLiteral.eq_def, notFeed, notEscape]
  | case7 passed byte rest notFeed notEscape other inductionHypothesis =>
      rw [← inductionHypothesis (List.not_mem_of_not_mem_cons inside)]
      rw [List.cons_append, passLiteral.eq_def]
      simp [notFeed, notEscape, other]

theorem passEnclosed_line (depth : Nat) (passed : Text) :
    passEnclosed depth passed (line ++ lineFeed :: back) =
      (passEnclosed depth passed line).map
        (Prod.map id (· ++ lineFeed :: back)) := by
  fun_induction passEnclosed depth passed line with
  | case1 => simp [passEnclosed]
  | case2 => simp at inside
  | case3 depth passed rest _ inductionHypothesis =>
      rw [← inductionHypothesis (List.not_mem_of_not_mem_cons inside)]
      rw [List.cons_append, passEnclosed]
      simp [lineFeed]
  | case4 depth passed rest last =>
      simp [passEnclosed, lineFeed, last]
  | case5 depth passed rest deeper _ _ inductionHypothesis =>
      rw [← inductionHypothesis (List.not_mem_of_not_mem_cons inside)]
      rw [List.cons_append, passEnclosed]
      simp [lineFeed, deeper]
  | case6 depth passed byte rest notFeed _ _ quote unclosed =>
      have unclosed' := passLiteral_line
        (List.not_mem_of_not_mem_cons inside) back byte (byte :: passed)
      rw [unclosed, Option.map_none] at unclosed'
      rw [List.cons_append, passEnclosed]
      simp only [*, if_true, if_false]
      split
      · rfl
      · next found => cases unclosed'.symm.trans found
  | case7 depth passed byte rest notFeed _ _ quote passed' after closed
      inductionHypothesis =>
      have closed' := passLiteral_line
        (List.not_mem_of_not_mem_cons inside) back byte (byte :: passed)
      rw [closed, Option.map_some, Prod.map_apply, id] at closed'
      rcases passLiteral_eq_some closed with ⟨front, -, rfl, -⟩
      rw [← inductionHypothesis (by grind)]
      rw [List.cons_append, passEnclosed]
      simp only [*, if_true, if_false]
      split
      · next found => cases closed'.symm.trans found
      · next found =>
        cases closed'.symm.trans found
        rfl
  | case8 depth passed byte rest notFeed _ _ _ inductionHypothesis =>
      rw [← inductionHypothesis (List.not_mem_of_not_mem_cons inside)]
      rw [List.cons_append, passEnclosed]
      simp [*]

end

theorem passEnclosed_suffix {depth : Nat} {passed text : Text}
    {passed' rest : Text}
    (result : passEnclosed depth passed text = some (passed', rest)) :
    rest <:+ text := by
  fun_induction passEnclosed depth passed text with
  | case1 => cases result
  | case2 => cases result
  | case3 _ _ _ _ inductionHypothesis =>
      exact (inductionHypothesis result).trans (List.suffix_cons _ _)
  | case4 =>
      cases result
      exact List.suffix_cons _ _
  | case5 _ _ _ _ _ _ inductionHypothesis =>
      exact (inductionHypothesis result).trans (List.suffix_cons _ _)
  | case6 => cases result
  | case7 _ _ _ _ _ _ _ _ _ _ literal inductionHypothesis =>
      rcases passLiteral_eq_some literal with ⟨front, -, rfl, -⟩
      exact (inductionHypothesis result).trans
        ((List.suffix_append _ _).trans (List.suffix_cons _ _))
  | case8 _ _ _ _ _ _ _ _ inductionHypothesis =>
      exact (inductionHypothesis result).trans (List.suffix_cons _ _)

/-- The same token in front of more text. -/
def Scanned.before (scanned : Scanned) (back : Text) : Scanned :=
  ⟨scanned.token, scanned.rest ++ back⟩

theorem illegal_line (number : Int) {line : Text} (nonempty : line ≠ [])
    (back : Text) :
    illegal number (line ++ lineFeed :: back) =
      (illegal number line).map (·.before (lineFeed :: back)) := by
  rw [illegal, Text.firstCharacter_line nonempty]
  rfl

theorem scanRun_line (kind : Text → Kind) (number : Int)
    {member : UInt8 → Bool} (stops : member lineFeed = false)
    (line back : Text) :
    scanRun kind number member (line ++ lineFeed :: back) =
      (scanRun kind number member line).before (lineFeed :: back) := by
  simp only [scanRun, Scanned.before, takeWhile_line stops,
    dropWhile_line stops]

theorem scanNumber_line (number : Int) (line back : Text) :
    scanNumber number (line ++ lineFeed :: back) =
      (scanNumber number line).map (·.before (lineFeed :: back)) := by
  have stops : Text.isDigit lineFeed = false := by decide
  simp only [scanNumber, takeWhile_line stops, dropWhile_line stops]
  split <;> rfl

theorem scanString_line (number : Int) (line back : Text) :
    scanString number (line ++ lineFeed :: back) =
      (scanString number line).map (·.before (lineFeed :: back)) := by
  have stops : isStringByte lineFeed = false := by decide
  simp only [scanString, takeWhile_line stops, dropWhile_line stops]
  have illegal := illegal_line number (List.cons_ne_nil 0x22 line) back
  cases rest : line.dropWhile isStringByte with
  | nil => exact illegal
  | cons byte after =>
      by_cases quote : byte = 0x22
      · cases quote
        rfl
      · simp only [List.cons_append]
        split
        · next same => exact absurd (List.cons.inj same).1 quote
        · split
          · next same => exact absurd (List.cons.inj same).1 quote
          · exact illegal

theorem scanCharacter_line (number : Int) {line : Text}
    (inside : lineFeed ∉ line) (back : Text) :
    scanCharacter number (line ++ lineFeed :: back) =
      (scanCharacter number line).map (·.before (lineFeed :: back)) := by
  have illegal := illegal_line number (List.cons_ne_nil 0x27 line) back
  by_cases nonempty : line = []
  · subst nonempty
    -- the quote is followed by the line end, whatever comes after it
    simp only [scanCharacter, List.nil_append]
    rw [show Text.firstCharacter (lineFeed :: back) = ⟨0x0a, 1⟩ by rfl]
    split
    · exact illegal
    · exact illegal
  · have fits := Text.firstCharacter_size_le line
    simp only [scanCharacter, Text.firstCharacter_line nonempty,
      List.drop_append_of_le_length fits, List.take_append_of_le_length fits]
    cases rest : line.drop (Text.firstCharacter line).size with
    | nil => exact illegal
    | cons byte after =>
        by_cases quote : byte = 0x27
        · cases quote
          simp only [List.cons_append]
          split
          · exact illegal
          · rfl
        · simp only [List.cons_append]
          split
          · next same => exact absurd (List.cons.inj same).1 quote
          · split
            · next same => exact absurd (List.cons.inj same).1 quote
            · exact illegal

theorem scanFormula_line (evaluate : Evaluator) (number : Int)
    {line : Text} (inside : lineFeed ∉ line) (back : Text) :
    scanFormula evaluate number (line ++ lineFeed :: back) =
      (scanFormula evaluate number line).map
        (·.before (lineFeed :: back)) := by
  simp only [scanFormula_eq, formulaOutcome, passEnclosed_line inside]
  cases passEnclosed 1 [] line with
  | none =>
      exact illegal_line number (List.cons_ne_nil 0x24 (0x28 :: line)) back
  | some found =>
      dsimp only [Option.map_some, Prod.map, id]
      cases evaluate (found.1.drop 1).reverse number <;> rfl

/-- What is read from the front of a line does not depend on later lines. -/
theorem scanToken_line (evaluator : Option Evaluator) (number : Int)
    {line : Text} (nonempty : line ≠ []) (inside : lineFeed ∉ line)
    (back : Text) :
    scanToken evaluator number (line ++ lineFeed :: back) =
      (scanToken evaluator number line).map
        (·.before (lineFeed :: back)) := by
  cases line with
  | nil => exact absurd rfl nonempty
  | cons first rest =>
      simp only [List.mem_cons, not_or] at inside
      have notFeed : first ≠ lineFeed := Ne.symm inside.1
      simp only [scanToken_eq, List.cons_append, if_neg notFeed]
      rw [← List.cons_append, scanNumber_line, scanString_line,
        scanCharacter_line number inside.2]
      rw [scanRun_line _ _ (by decide)]
      split
      · rfl
      split
      · rfl
      split
      · rfl
      split
      · rfl
      split
      · rfl
      · have illegal := illegal_line number nonempty back
        by_cases formula : ∃ evaluate inner,
          evaluator = some evaluate ∧ first = 0x24 ∧ rest = 0x28 :: inner
        · rcases formula with ⟨evaluate, inner, rfl, rfl, rfl⟩
          simp only [List.mem_cons, not_or] at inside
          exact scanFormula_line evaluate number inside.2.2 back
        · split
          · next evaluate inner same _ _ _ _ _ =>
            rcases List.append_eq_cons_iff.1 same with
              ⟨-, feed⟩ | ⟨after, rfl, -⟩
            · cases feed
            · exact absurd ⟨evaluate, after, rfl, rfl, rfl⟩ formula
          · split
            · exact absurd ⟨_, _, rfl, rfl, rfl⟩ formula
            · exact illegal

theorem wordKind_inside (word : Text) (number : Int) (text : Text) :
    endsStatement ⟨wordKind word, number, text⟩ = false := by
  unfold wordKind
  split
  · rfl
  · split <;> rfl

/-- A token inside a line leaves the end of the text it was read from. -/
theorem scanToken_inside {evaluator : Option Evaluator} {number : Int}
    {line : Text} {scanned : Scanned} (nonempty : line ≠ [])
    (inside : lineFeed ∉ line)
    (result : scanToken evaluator number line = .ok scanned) :
    scanned.token.endsStatement = false ∧ scanned.rest <:+ line := by
  rcases List.exists_cons_of_ne_nil nonempty with ⟨first, text, rfl⟩
  have notFeed : first ≠ lineFeed := by
    rintro rfl
    simp at inside
  simp only [scanToken_eq, if_neg notFeed] at result
  split at result
  · simp only [scanNumber] at result
    split at result <;> cases result
    exact ⟨rfl, List.dropWhile_suffix _⟩
  split at result
  · simp only [scanCharacter] at result
    split at result
    · next after found =>
      split at result <;> cases result
      refine ⟨rfl, ?_⟩
      have tail : 0x27 :: after <:+ text := found ▸ List.drop_suffix _ _
      exact (List.suffix_cons _ _).trans (tail.trans (List.suffix_cons _ _))
    · cases result
  split at result
  · simp only [scanString] at result
    split at result
    · next after found =>
      cases result
      refine ⟨rfl, ?_⟩
      have tail : 0x22 :: after <:+ text := found ▸ List.dropWhile_suffix _
      exact (List.suffix_cons _ _).trans (tail.trans (List.suffix_cons _ _))
    · cases result
  split at result
  · cases result
    refine ⟨?_, List.dropWhile_suffix _⟩
    exact wordKind_inside _ _ _
  split at result
  · cases result
    exact ⟨rfl, List.suffix_cons _ _⟩
  · split at result
    · simp only [scanFormula_eq, formulaOutcome] at result
      split at result
      · cases result
      · next found =>
        split at result <;> cases result
        refine ⟨rfl, (passEnclosed_suffix found).trans ?_⟩
        exact (List.suffix_cons _ _).trans (List.suffix_cons _ _)
    · cases result

end Token

/-! ## All tokens -/

namespace TokenStream

/-- The same stream after more tokens. -/
def after (front : List Token) (stream : TokenStream) : TokenStream :=
  ⟨front ++ stream.tokens, stream.fault⟩

theorem after_append (front middle : List Token) (stream : TokenStream) :
    after (front ++ middle) stream = after front (after middle stream) := by
  simp [after]

/-- The tokens of a text whose first line has a given number. -/
def scanFrom (evaluator : Option Evaluator) (line : Int) (text : Text) :
    TokenStream :=
  scanOnto evaluator [] line text

theorem tokenize_eq_scanFrom (evaluator : Option Evaluator) (text : Text) :
    tokenize evaluator text = scanFrom evaluator 1 text :=
  rfl

variable {evaluator : Option Evaluator} {line : Int} {text : Text}

theorem scanOnto_of_error {reversed : List Token} {fault : Error}
    (scan : Token.scanToken evaluator line (text.dropWhile Token.isBlank) =
      .error fault) :
    scanOnto evaluator reversed line text =
      ⟨reversed.reverse, some fault⟩ := by
  rw [scanOnto_eq, scan]

theorem scanOnto_of_ok {reversed : List Token} {scanned : Token.Scanned}
    (scan : Token.scanToken evaluator line (text.dropWhile Token.isBlank) =
      .ok scanned) :
    scanOnto evaluator reversed line text =
      if scanned.token.kind = .endOfText then
        ⟨(scanned.token :: reversed).reverse, none⟩
      else
        scanOnto evaluator (scanned.token :: reversed)
          (line + scanned.token.lineEnds) scanned.rest := by
  rw [scanOnto_eq, scan]

/-- Tokens that have been read before do not matter for later ones. -/
theorem scanOnto_append (reversed before : List Token) :
    scanOnto evaluator (reversed ++ before) line text =
      after before.reverse (scanOnto evaluator reversed line text) := by
  induction reversed, line, text using scanOnto_induct evaluator with
  | failed reversed line text fault scan =>
      simp [scanOnto_of_error scan, after]
  | ended reversed line text scanned scan final =>
      simp [scanOnto_of_ok scan, final, after]
  | inside reversed line text scanned scan inside inductionHypothesis =>
      rw [scanOnto_of_ok scan, if_neg inside, scanOnto_of_ok scan,
        if_neg inside]
      exact inductionHypothesis

theorem scanFrom_of_error {fault : Error}
    (scan : Token.scanToken evaluator line (text.dropWhile Token.isBlank) =
      .error fault) :
    scanFrom evaluator line text = ⟨[], some fault⟩ :=
  scanOnto_of_error scan

theorem scanFrom_of_ok {scanned : Token.Scanned}
    (scan : Token.scanToken evaluator line (text.dropWhile Token.isBlank) =
      .ok scanned)
    (inside : scanned.token.kind ≠ .endOfText) :
    scanFrom evaluator line text =
      after [scanned.token]
        (scanFrom evaluator (line + scanned.token.lineEnds)
          scanned.rest) := by
  rw [scanFrom, scanOnto_of_ok scan, if_neg inside]
  exact scanOnto_append [] [scanned.token]

theorem scanFrom_nil :
    scanFrom evaluator line [] = ⟨[⟨.endOfText, line, []⟩], none⟩ := by
  have scan : Token.scanToken evaluator line
      (([] : Text).dropWhile Token.isBlank) =
        .ok ⟨⟨.endOfText, line, []⟩, []⟩ := rfl
  rw [scanFrom, scanOnto_of_ok scan]
  rfl

/-- The line ends at the front of a text. -/
def leadingFeeds (text : Text) : Text :=
  text.takeWhile (· == Token.lineFeed)

/-- What follows the line ends at the front of a text. -/
def pastFeeds (text : Text) : Text :=
  text.dropWhile (· == Token.lineFeed)

/-- Line ends in a row are one token. -/
theorem scanFrom_feed {rest : Text}
    (front : text.dropWhile Token.isBlank = Token.lineFeed :: rest) :
    scanFrom evaluator line text =
      after [⟨.newline, line, Token.lineFeed :: leadingFeeds rest⟩]
        (scanFrom evaluator (line + 1 + (leadingFeeds rest).length)
          (pastFeeds rest)) := by
  have scan : Token.scanToken evaluator line
      (text.dropWhile Token.isBlank) =
        .ok ⟨⟨.newline, line, Token.lineFeed :: leadingFeeds rest⟩,
          pastFeeds rest⟩ := by
    rw [front]
    rfl
  rw [scanFrom_of_ok scan (by simp)]
  congr 2
  simp only [Token.lineEnds, List.length_cons]
  omega

theorem length_leadingFeeds_add_count (text : Text) :
    (leadingFeeds text).length + (pastFeeds text).count Token.lineFeed =
      text.count Token.lineFeed := by
  induction text with
  | nil => rfl
  | cons byte rest inductionHypothesis =>
      by_cases feed : byte = Token.lineFeed
      · simp [leadingFeeds, pastFeeds, feed] at inductionHypothesis ⊢
        omega
      · simp [leadingFeeds, pastFeeds, feed]

theorem getLast?_of_suffix {back : Text} (suffix : back <:+ text)
    (nonempty : back ≠ []) : back.getLast? = text.getLast? := by
  rcases suffix with ⟨front, rfl⟩
  rw [List.getLast?_append, List.getLast?_eq_some_getLast nonempty,
    Option.some_or]

/--
How a text that ends with a line end is read, whatever follows it.

Line ends at the front of what follows become part of the last token.
-/
inductive ReadByLines (evaluator : Option Evaluator) (line : Int)
    (text : Text) : Prop where
  | failed {tokens : List Token} {fault : Error}
      (inside : ∀ token ∈ tokens, token.kind ≠ .endOfText)
      (scans : ∀ back,
        scanFrom evaluator line (text ++ back) = ⟨tokens, some fault⟩)
  | ended {front : List Token} {last : Int}
      (inside : ∀ token ∈ front, token.kind ≠ .endOfText)
      (scans : ∀ back, ∃ feeds,
        scanFrom evaluator line (text ++ back) =
          after (front ++ [⟨.newline, last, feeds⟩])
            (scanFrom evaluator
              (line + text.count Token.lineFeed +
                (leadingFeeds back).length) (pastFeeds back)))

theorem ReadByLines.cons {token : Token} {rest : Text}
    (inside : token.kind ≠ .endOfText)
    (scans : ∀ back, scanFrom evaluator line (text ++ back) =
      after [token]
        (scanFrom evaluator (line + token.lineEnds) (rest ++ back)))
    (count : text.count Token.lineFeed =
      token.lineEnds + rest.count Token.lineFeed)
    (others : ReadByLines evaluator (line + token.lineEnds) rest) :
    ReadByLines evaluator line text := by
  cases others with
  | @failed tokens fault othersInside othersScan =>
      refine @ReadByLines.failed _ _ _ (token :: tokens) fault
        (List.forall_mem_cons.2 ⟨inside, othersInside⟩) fun back => ?_
      rw [scans, othersScan]
      rfl
  | @ended front last othersInside othersScan =>
      refine @ReadByLines.ended _ _ _ (token :: front) last
        (List.forall_mem_cons.2 ⟨inside, othersInside⟩) fun back => ?_
      rcases othersScan back with ⟨feeds, scan⟩
      refine ⟨feeds, ?_⟩
      rw [scans, scan, ← after_append, count, Int.natCast_add,
        ← Int.add_assoc]
      rfl

theorem count_dropWhile_isBlank (text : Text) :
    (text.dropWhile Token.isBlank).count Token.lineFeed =
      text.count Token.lineFeed := by
  induction text with
  | nil => rfl
  | cons byte rest inductionHypothesis =>
      rw [List.dropWhile_cons]
      split
      · next blank =>
        rw [inductionHypothesis, List.count_cons_of_ne]
        rintro rfl
        simp [Token.isBlank, Token.lineFeed] at blank
      · rfl

theorem dropWhile_append_of_cons {member : UInt8 → Bool} {first : UInt8}
    {rest : Text} (front : text.dropWhile member = first :: rest)
    (back : Text) :
    (text ++ back).dropWhile member = first :: (rest ++ back) := by
  rw [List.dropWhile_append, front]
  rfl

theorem readByLines_of_feed {rest : Text}
    (front : text.dropWhile Token.isBlank = Token.lineFeed :: rest)
    (others : pastFeeds rest ≠ [] →
      ReadByLines evaluator (line + 1 + (leadingFeeds rest).length)
        (pastFeeds rest)) :
    ReadByLines evaluator line text := by
  have count : text.count Token.lineFeed =
      1 + (leadingFeeds rest).length +
        (pastFeeds rest).count Token.lineFeed := by
    rw [← count_dropWhile_isBlank, front, List.count_cons_self,
      ← length_leadingFeeds_add_count]
    omega
  by_cases last : pastFeeds rest = []
  · have feeds := List.dropWhile_eq_nil_iff.1 last
    have all : leadingFeeds rest = rest := List.takeWhile_eq_self_iff.2 feeds
    refine @ReadByLines.ended _ _ _ [] line (by simp) fun back => ?_
    refine ⟨Token.lineFeed :: leadingFeeds (rest ++ back), ?_⟩
    have leading : leadingFeeds (rest ++ back) =
        rest ++ leadingFeeds back := List.takeWhile_append_of_pos feeds
    have past : pastFeeds (rest ++ back) = pastFeeds back :=
      List.dropWhile_append_of_pos feeds
    rw [scanFrom_feed (dropWhile_append_of_cons front back), count, last,
      all, past, leading, List.nil_append, List.length_append]
    congr 2
    simp only [List.count_nil]
    omega
  · have past (back : Text) :
        pastFeeds (rest ++ back) = pastFeeds rest ++ back := by
      rcases List.exists_cons_of_ne_nil last with ⟨first, others, tail⟩
      rw [tail]
      exact dropWhile_append_of_cons tail back
    have leading (back : Text) :
        leadingFeeds (rest ++ back) = leadingFeeds rest := by
      refine (List.takeWhile_append).trans (if_neg fun whole => last ?_)
      have parts := congrArg List.length
        (@List.takeWhile_append_dropWhile _ (· == Token.lineFeed) rest)
      rw [List.length_append] at parts
      exact List.eq_nil_of_length_eq_zero
        (show (rest.dropWhile (· == Token.lineFeed)).length = 0 by omega)
    have length : line + 1 + ((leadingFeeds rest).length : Int) =
        line + ((Token.lineFeed :: leadingFeeds rest).length : Nat) := by
      rw [List.length_cons]
      omega
    rw [length] at others
    refine @ReadByLines.cons _ _ _
      ⟨.newline, line, Token.lineFeed :: leadingFeeds rest⟩ _ (by simp)
      (fun back => ?_) ?_ (others last)
    · rw [scanFrom_feed (dropWhile_append_of_cons front back), past,
        leading, length]
      rfl
    · rw [count]
      simp only [Token.lineEnds, List.length_cons]
      omega

theorem readByLines_of_inside {inner tail : Text}
    (ends : text.getLast? = some Token.lineFeed)
    (front : text.dropWhile Token.isBlank =
      inner ++ Token.lineFeed :: tail)
    (nonempty : inner ≠ []) (inside : Token.lineFeed ∉ inner)
    (others : ∀ shorter : Text, shorter.length < text.length →
      shorter.getLast? = some Token.lineFeed →
        ReadByLines evaluator line shorter) :
    ReadByLines evaluator line text := by
  have suffix : inner ++ Token.lineFeed :: tail <:+ text :=
    front ▸ List.dropWhile_suffix _
  have scan (back : Text) :
      Token.scanToken evaluator line
          ((text ++ back).dropWhile Token.isBlank) =
        (Token.scanToken evaluator line inner).map
          (·.before (Token.lineFeed :: (tail ++ back))) := by
    rw [← Token.scanToken_line _ _ nonempty inside, List.dropWhile_append,
      front]
    simp
  cases found : Token.scanToken evaluator line inner with
  | error fault =>
      refine @ReadByLines.failed _ _ _ [] fault (by simp) fun back => ?_
      refine scanFrom_of_error ?_
      rw [scan, found]
      rfl
  | ok scanned =>
      rcases Token.scanToken_inside nonempty inside found with ⟨within, left⟩
      have kind : scanned.token.kind ≠ .endOfText := by
        intro same
        simp [Token.endsStatement, same] at within
      have noLineEnds : scanned.token.lineEnds = 0 := by
        unfold Token.lineEnds
        split
        · next same => simp [Token.endsStatement, same] at within
        · rfl
      have left' : scanned.rest ++ Token.lineFeed :: tail <:+ text := by
        rcases left with ⟨taken, rfl⟩
        rw [List.append_assoc] at suffix
        exact (List.suffix_append _ _).trans suffix
      refine @ReadByLines.cons _ _ _ scanned.token
        (scanned.rest ++ Token.lineFeed :: tail) kind (fun back => ?_) ?_ ?_
      · have next := scan back
        rw [found] at next
        rw [List.append_assoc]
        exact scanFrom_of_ok next kind
      · rw [← count_dropWhile_isBlank, front, noLineEnds,
          List.count_append, List.count_append,
          List.count_eq_zero_of_not_mem inside,
          List.count_eq_zero_of_not_mem fun feed =>
            inside (left.subset feed)]
        omega
      · rw [noLineEnds, Int.natCast_zero, Int.add_zero]
        refine others _ ?_ ?_
        · have shorter := Token.scanToken_length_lt found kind
          have whole := suffix.length_le
          simp only [List.length_append, List.length_cons] at whole ⊢
          omega
        · rw [← ends]
          exact getLast?_of_suffix left' (by simp)

/-- Every text that ends with a line end is read line by line. -/
theorem readByLines (evaluator : Option Evaluator) (line : Int)
    {text : Text} (ends : text.getLast? = some Token.lineFeed) :
    ReadByLines evaluator line text := by
  induction size : text.length using Nat.strongRecOn
    generalizing line text with
  | ind size inductionHypothesis =>
  subst size
  have feed : Token.lineFeed ∈ text.dropWhile Token.isBlank := by
    rw [← List.count_pos_iff, count_dropWhile_isBlank, List.count_pos_iff]
    exact List.mem_of_getLast? ends
  rcases List.eq_append_cons_of_mem feed with ⟨inner, tail, front, inside⟩
  by_cases nonempty : inner = []
  · rw [nonempty, List.nil_append] at front
    have suffix : Token.lineFeed :: tail <:+ text :=
      front ▸ List.dropWhile_suffix _
    have later : pastFeeds tail <:+ tail := List.dropWhile_suffix _
    refine readByLines_of_feed front fun more => ?_
    refine inductionHypothesis _ ?_ _ ?_ rfl
    · have whole := suffix.length_le
      have part := later.length_le
      rw [List.length_cons] at whole
      omega
    · rw [← ends]
      exact getLast?_of_suffix
        ((later.trans (List.suffix_cons _ _)).trans suffix) more
  · exact readByLines_of_inside ends front nonempty inside
      fun shorter less ends => inductionHypothesis _ less line ends rfl

end TokenStream

/-! ## Line numbers -/

/-- The evaluator of a text that stands after other lines. -/
def Evaluator.shift (lines : Int) (evaluate : Evaluator) : Evaluator :=
  fun formula line => evaluate formula (line + lines)

/-- The token after more lines. -/
def Token.shift (lines : Int) (token : Token) : Token :=
  { token with line := token.line + lines }

/-- The error after more lines; some errors have no place in a text. -/
def Error.shift (lines : Int) : Error → Error
  | .illegalCharacter line code => .illegalCharacter (line + lines) code
  | .malformed line token cause => .malformed (line + lines) token cause
  | .operand line mnemonic cause => .operand (line + lines) mnemonic cause
  | .labelMissing line label => .labelMissing (line + lines) label
  | .predefine name => .predefine name
  | .width bits => .width bits
  | .unreadable reason => .unreadable reason
  | .bare cause => .bare cause
  | .breakdown reason => .breakdown reason

@[simp]
theorem Evaluator.shift_zero : Evaluator.shift 0 = id := by
  funext evaluate formula line
  rw [shift, Int.add_zero, id]

@[simp]
theorem Error.shift_zero : Error.shift 0 = id := by
  funext fault
  cases fault <;> simp [shift]

/-- The stream of a text that stands after more lines. -/
def TokenStream.shift (lines : Int) (stream : TokenStream) : TokenStream :=
  ⟨stream.tokens.map (Token.shift lines),
    stream.fault.map (Error.shift lines)⟩

namespace Token

/-- What has been read, after more lines. -/
def shiftScan (lines : Int) :
    Except Error Scanned → Except Error Scanned
  | .error fault => .error (fault.shift lines)
  | .ok scanned => .ok ⟨scanned.token.shift lines, scanned.rest⟩

theorem scanFormula_shift (evaluate : Evaluator) (line lines : Int)
    (rest : Text) :
    scanFormula evaluate (line + lines) rest =
      shiftScan lines
        (scanFormula (Evaluator.shift lines evaluate) line rest) := by
  simp only [scanFormula_eq, formulaOutcome, Evaluator.shift]
  split
  · rfl
  · split <;> rfl

/-- The number of the line is part of what is read and nothing else. -/
theorem scanToken_shift (evaluator : Option Evaluator) (line lines : Int)
    (text : Text) :
    scanToken evaluator (line + lines) text =
      shiftScan lines
        (scanToken (evaluator.map (Evaluator.shift lines)) line text) := by
  cases text with
  | nil => rfl
  | cons first rest =>
      simp only [scanToken_eq]
      split
      · rfl
      split
      · simp only [scanNumber]
        split <;> rfl
      split
      · simp only [scanCharacter]
        split
        · split <;> rfl
        · rfl
      split
      · simp only [scanString]
        split <;> rfl
      split
      · rfl
      split
      · rfl
      · cases evaluator with
        | none => rfl
        | some evaluate =>
            by_cases formula : ∃ inner, first = 0x24 ∧ rest = 0x28 :: inner
            · rcases formula with ⟨inner, rfl, rfl⟩
              exact scanFormula_shift evaluate line lines inner
            · dsimp only [Option.map_some]
              split
              · exact absurd ⟨_, rfl, rfl⟩ formula
              · split
                · exact absurd ⟨_, rfl, rfl⟩ formula
                · rfl

end Token

namespace TokenStream

theorem scanOnto_shift (evaluator : Option Evaluator) (lines : Int)
    (reversed : List Token) (line : Int) (text : Text) :
    scanOnto evaluator (reversed.map (Token.shift lines)) (line + lines)
        text =
      shift lines
        (scanOnto (evaluator.map (Evaluator.shift lines)) reversed line
          text) := by
  induction reversed, line, text using
    scanOnto_induct (evaluator.map (Evaluator.shift lines)) with
  | failed reversed line text fault scan =>
      have scan' := Token.scanToken_shift evaluator line lines
        (text.dropWhile Token.isBlank)
      rw [scan] at scan'
      rw [scanOnto_of_error scan', scanOnto_of_error scan]
      simp [shift]
  | ended reversed line text scanned scan final =>
      have scan' := Token.scanToken_shift evaluator line lines
        (text.dropWhile Token.isBlank)
      rw [scan] at scan'
      rw [scanOnto_of_ok scan', scanOnto_of_ok scan]
      simp [shift, Token.shift, final]
  | inside reversed line text scanned scan inside inductionHypothesis =>
      have scan' := Token.scanToken_shift evaluator line lines
        (text.dropWhile Token.isBlank)
      rw [scan] at scan'
      rw [scanOnto_of_ok scan', scanOnto_of_ok scan, if_neg inside,
        ← inductionHypothesis, Int.add_right_comm]
      exact if_neg inside

theorem scanFrom_shift (evaluator : Option Evaluator) (line lines : Int)
    (text : Text) :
    scanFrom evaluator (line + lines) text =
      shift lines
        (scanFrom (evaluator.map (Evaluator.shift lines)) line text) :=
  scanOnto_shift evaluator lines [] line text

end TokenStream

end FlatAsm
