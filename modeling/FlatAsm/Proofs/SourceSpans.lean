import FlatAsm.Proofs.IndexedTokens
import Mathlib.Data.List.Pairwise

/-!
# Where tokens stand in a text

Every token stands at a place of the text it was read from.  The places
follow from the tokens: before each of them there are blanks, and then the
bytes of its spelling.  Nothing of the text is lost, since only blanks stand
between tokens, up to the end of the text or to what cannot be read.

Runs are maximal: no longer stretch of the text around a line end, a number
or a word has the form of one.

The same tokens are found where the text is read by positions, and then every
position that is looked at lies in the text.
-/

namespace FlatAsm

/-- The line on which an offset stands; lines are counted from 1. -/
def Text.lineAt (text : Text) (offset : Nat) : Int :=
  1 + (text.take offset).count Token.lineFeed

/-- The first offset from a given one on at which no blank stands. -/
def Text.afterBlanks (text : Text) (offset : Nat) : Nat :=
  offset + ((text.drop offset).takeWhile Token.isBlank).length

/-- A token and the offset at which it starts. -/
structure PlacedToken where
  token : Token
  start : Nat

namespace PlacedToken

/-- The offset after the token. -/
def stop (placed : PlacedToken) : Nat :=
  placed.start + placed.token.spelling.length

theorem start_le_stop (placed : PlacedToken) :
    placed.start ≤ placed.stop :=
  Nat.le_add_right _ _

/-- The token stands at the offset. -/
def Covers (placed : PlacedToken) (offset : Nat) : Prop :=
  placed.start ≤ offset ∧ offset < placed.stop

end PlacedToken

namespace TokenStream

/-- The places of tokens in a text, which follow one another from an offset
on. -/
def placeFrom (text : Text) : Nat → List Token → List PlacedToken
  | _, [] => []
  | offset, token :: rest =>
      let placed : PlacedToken := ⟨token, text.afterBlanks offset⟩
      placed :: placeFrom text placed.stop rest

/-- The offset that is reached after tokens and the blanks behind them. -/
def reachFrom (text : Text) : Nat → List Token → Nat
  | offset, [] => text.afterBlanks offset
  | offset, token :: rest =>
      let placed : PlacedToken := ⟨token, text.afterBlanks offset⟩
      reachFrom text placed.stop rest

/-- The tokens of a stream with their places in a text. -/
def placed (stream : TokenStream) (text : Text) : List PlacedToken :=
  placeFrom text 0 stream.tokens

/-- Where the end of the text or an error has been found. -/
def reached (stream : TokenStream) (text : Text) : Nat :=
  reachFrom text 0 stream.tokens

end TokenStream

/-! ## Blanks -/

namespace Text

variable {text : Text} {offset : Nat}

theorem le_afterBlanks (text : Text) (offset : Nat) :
    offset ≤ text.afterBlanks offset :=
  Nat.le_add_right _ _

theorem afterBlanks_le (inside : offset ≤ text.length) :
    text.afterBlanks offset ≤ text.length := by
  have short := (List.takeWhile_sublist Token.isBlank
    (l := text.drop offset)).length_le
  rw [List.length_drop] at short
  rw [afterBlanks]
  omega

theorem drop_afterBlanks (text : Text) (offset : Nat) :
    text.drop (text.afterBlanks offset) =
      (text.drop offset).dropWhile Token.isBlank := by
  rw [afterBlanks, ← List.drop_drop]
  nth_rewrite 2 [← @List.takeWhile_append_dropWhile _ Token.isBlank
    (text.drop offset)]
  rw [List.drop_left]

/-- Only blanks stand between an offset and the end of its blanks. -/
theorem isBlank_of_lt_afterBlanks {place : Nat} (above : offset ≤ place)
    (below : place < text.afterBlanks offset) :
    ∃ byte, text[place]? = some byte ∧ Token.isBlank byte = true := by
  obtain ⟨rest, whole⟩ :=
    List.takeWhile_prefix Token.isBlank (l := text.drop offset)
  have inside : place - offset <
      ((text.drop offset).takeWhile Token.isBlank).length := by
    rw [afterBlanks] at below
    omega
  have blank := List.mem_takeWhile_imp (List.getElem_mem inside)
  refine ⟨_, ?_, blank⟩
  calc
    text[place]? = (text.drop offset)[place - offset]? := by
      rw [List.getElem?_drop, Nat.add_sub_cancel' above]
    _ = (List.takeWhile Token.isBlank (text.drop offset) ++
          rest)[place - offset]? := by
      rw [whole]
    _ = some ((text.drop offset).takeWhile Token.isBlank)[place - offset] :=
      by rw [List.getElem?_append_left inside,
        List.getElem?_eq_getElem inside]

theorem count_blanks (text : Text) :
    (text.takeWhile Token.isBlank).count Token.lineFeed = 0 := by
  rw [List.count_eq_zero]
  intro member
  have blank := List.mem_takeWhile_imp member
  simp [Token.isBlank, Token.lineFeed] at blank

/-- Lines are counted on by the line ends in between. -/
theorem lineAt_add {front back : Text}
    (split : text.drop offset = front ++ back) :
    text.lineAt (offset + front.length) =
      text.lineAt offset + front.count Token.lineFeed := by
  rw [lineAt, lineAt, List.take_add, split, List.take_left,
    List.count_append]
  omega

theorem lineAt_afterBlanks (text : Text) (offset : Nat) :
    text.lineAt (text.afterBlanks offset) = text.lineAt offset := by
  have blanks := lineAt_add
    (@List.takeWhile_append_dropWhile _ Token.isBlank
      (text.drop offset)).symm
  rw [count_blanks, Int.natCast_zero, Int.add_zero] at blanks
  exact blanks

end Text

/-! ## Tokens one after the other -/

namespace Token

variable {evaluator : Option Evaluator} {line : Int} {text : Text}

/-- The line ends within a token are those that it is made of. -/
theorem count_spelling {scanned : Scanned} (nonempty : text ≠ [])
    (result : scanToken evaluator line text = .ok scanned) :
    scanned.token.spelling.count lineFeed = scanned.token.lineEnds := by
  obtain ⟨first, rest, rfl⟩ := List.exists_cons_of_ne_nil nonempty
  by_cases feed : first = lineFeed
  · simp only [scanToken_eq, if_pos feed] at result
    cases result
    -- a run of line ends is made of nothing else
    simp only [scanRun, spelling, lineEnds]
    rw [List.count_eq_length]
    intro byte member
    have same := List.mem_takeWhile_imp member
    exact (beq_iff_eq.1 same).symm
  -- any other token is read from its line alone
  obtain ⟨inner, scan, inside, innerNonempty⟩ :
      ∃ inner, (∃ found, scanToken evaluator line inner = .ok found ∧
        found.token = scanned.token) ∧ lineFeed ∉ inner ∧ inner ≠ [] := by
    by_cases member : lineFeed ∈ first :: rest
    · obtain ⟨inner, tail, split, inside⟩ :=
        List.eq_append_cons_of_mem member
      have innerNonempty : inner ≠ [] := by
        rintro rfl
        exact feed (List.cons.inj split).1
      rw [split, scanToken_line evaluator line innerNonempty inside]
        at result
      cases found : scanToken evaluator line inner with
      | error fault =>
          rw [found] at result
          cases result
      | ok read =>
          rw [found] at result
          cases result
          exact ⟨inner, ⟨read, found, rfl⟩, inside, innerNonempty⟩
    · exact ⟨first :: rest, ⟨scanned, result, rfl⟩, member, nonempty⟩
  obtain ⟨found, read, same⟩ := scan
  obtain ⟨within, -⟩ := scanToken_inside innerNonempty inside read
  obtain ⟨whole, -⟩ := scanToken_isLexeme innerNonempty read
  rw [same] at within whole
  have noFeed : lineFeed ∉ scanned.token.spelling := by
    intro member
    exact inside (whole ▸ List.mem_append_left _ member)
  rw [List.count_eq_zero_of_not_mem noFeed, lineEnds]
  split
  · next kind => simp [endsStatement, kind] at within
  · rfl

end Token

namespace TokenStream

/--
How the tokens of a stream are read from a text, from an offset on.

Each token is a lexeme at its place, and is numbered with the line there.
-/
inductive ReadFrom (evaluator : Option Evaluator) (text : Text) :
    Nat → TokenStream → Prop where
  | ended {offset : Nat} (blank : text.afterBlanks offset = text.length) :
      ReadFrom evaluator text offset
        ⟨[⟨.endOfText, text.lineAt text.length, []⟩], none⟩
  | failed {offset : Nat} {fault : Error}
      (rejected : Token.IsRejected evaluator
        (text.lineAt (text.afterBlanks offset))
        (text.drop (text.afterBlanks offset)) fault) :
      ReadFrom evaluator text offset ⟨[], some fault⟩
  | token {offset : Nat} {placed : PlacedToken} {stream : TokenStream}
      (starts : placed.start = text.afterBlanks offset)
      (spelled : text.drop placed.start =
        placed.token.spelling ++ text.drop placed.stop)
      (lexeme : Token.IsLexeme evaluator (text.lineAt placed.start)
        (text.drop placed.stop) placed.token)
      (others : ReadFrom evaluator text placed.stop stream) :
      ReadFrom evaluator text offset (after [placed.token] stream)

theorem readFrom_scanFrom (evaluator : Option Evaluator) {text : Text}
    {offset : Nat} (inside : offset ≤ text.length) :
    ReadFrom evaluator text offset
      (scanFrom evaluator (text.lineAt offset) (text.drop offset)) := by
  induction left : text.length - offset using Nat.strongRecOn
    generalizing offset with
  | ind left inductionHypothesis =>
  have start := Text.drop_afterBlanks text offset
  have line := Text.lineAt_afterBlanks text offset
  have bounded := Text.afterBlanks_le inside
  have passed := Text.le_afterBlanks text offset
  cases scan : Token.scanToken evaluator (text.lineAt offset)
      ((text.drop offset).dropWhile Token.isBlank) with
  | error fault =>
      rw [scanFrom_of_error scan]
      apply ReadFrom.failed
      rw [start, line]
      exact Token.scanToken_isRejected scan
  | ok scanned =>
      by_cases ended : (text.drop offset).dropWhile Token.isBlank = []
      · have last : text.afterBlanks offset = text.length := by
          rw [ended, List.drop_eq_nil_iff] at start
          omega
        rw [ended] at scan
        cases scan
        have scan : Token.scanToken evaluator (text.lineAt offset)
            ((text.drop offset).dropWhile Token.isBlank) =
              .ok ⟨⟨.endOfText, text.lineAt offset, []⟩, []⟩ := by
          rw [ended]
          rfl
        rw [scanFrom, scanOnto_of_ok scan, if_pos rfl, ← line, last]
        exact .ended last
      · obtain ⟨whole, lexeme⟩ := Token.scanToken_isLexeme ended scan
        have count := Token.count_spelling ended scan
        have nonempty := List.length_pos_iff.2 lexeme.spelling_ne_nil
        rw [← start] at whole
        rw [scanFrom_of_ok scan lexeme.kind_ne]
        let placed : PlacedToken :=
          ⟨scanned.token, text.afterBlanks offset⟩
        have rest : text.drop placed.stop = scanned.rest := by
          rw [PlacedToken.stop, ← List.drop_drop, whole, List.drop_left]
        have next := Text.lineAt_add whole
        rw [line, count] at next
        have within : placed.stop ≤ text.length := by
          have lengths := congrArg List.length whole
          rw [List.length_drop, List.length_append] at lengths
          simp only [PlacedToken.stop, placed]
          omega
        refine @ReadFrom.token _ _ _ placed _ rfl ?_ ?_ ?_
        · rw [rest]
          exact whole
        · rw [rest, line]
          exact lexeme
        · rw [← next, ← rest]
          refine inductionHypothesis _ ?_ within rfl
          have further : text.afterBlanks offset < placed.stop := by
            simp only [PlacedToken.stop, placed]
            omega
          omega

/-- The tokens of a text are read from its beginning to its end. -/
theorem readFrom_tokenize (evaluator : Option Evaluator) (text : Text) :
    ReadFrom evaluator text 0 (tokenize evaluator text) :=
  readFrom_scanFrom evaluator (Nat.zero_le _)

/-! ## Places -/

section

variable {text : Text} {offset : Nat} {tokens : List Token}
  {placed : PlacedToken}

theorem map_token_placeFrom (text : Text) (offset : Nat)
    (tokens : List Token) :
    (placeFrom text offset tokens).map PlacedToken.token = tokens := by
  induction tokens generalizing offset with
  | nil => rfl
  | cons token rest inductionHypothesis =>
      rw [placeFrom, List.map_cons, inductionHypothesis]

theorem start_of_mem_placeFrom
    (member : placed ∈ placeFrom text offset tokens) :
    offset ≤ placed.start := by
  induction tokens generalizing offset with
  | nil => cases member
  | cons token rest inductionHypothesis =>
      have passed := text.le_afterBlanks offset
      rcases List.mem_cons.1 member with rfl | later
      · exact passed
      · exact passed.trans ((PlacedToken.start_le_stop _).trans
          (inductionHypothesis later))

theorem ordered_placeFrom (text : Text) (offset : Nat)
    (tokens : List Token) :
    (placeFrom text offset tokens).Pairwise
      fun earlier later => earlier.stop ≤ later.start := by
  induction tokens generalizing offset with
  | nil => exact List.Pairwise.nil
  | cons token rest inductionHypothesis =>
      refine List.pairwise_cons.2 ⟨?_, inductionHypothesis _⟩
      intro later member
      exact start_of_mem_placeFrom member

/-- Up to the offset reached, there are tokens and blanks only. -/
theorem covered_placeFrom {place : Nat} (above : offset ≤ place)
    (below : place < reachFrom text offset tokens) :
    (∃ placed ∈ placeFrom text offset tokens, placed.Covers place) ∨
      ∃ byte, text[place]? = some byte ∧ Token.isBlank byte = true := by
  induction tokens generalizing offset with
  | nil => exact .inr (Text.isBlank_of_lt_afterBlanks above below)
  | cons token rest inductionHypothesis =>
      by_cases blank : place < text.afterBlanks offset
      · exact .inr (Text.isBlank_of_lt_afterBlanks above blank)
      let here : PlacedToken := ⟨token, text.afterBlanks offset⟩
      by_cases within : place < here.stop
      · exact .inl ⟨here, List.mem_cons_self, Nat.le_of_not_lt blank,
          within⟩
      · rcases inductionHypothesis (Nat.le_of_not_lt within) below with
          ⟨placed, member, covers⟩ | spaced
        · exact .inl ⟨placed, List.mem_cons_of_mem _ member, covers⟩
        · exact .inr spaced

theorem le_reachFrom (text : Text) (offset : Nat) (tokens : List Token) :
    offset ≤ reachFrom text offset tokens := by
  induction tokens generalizing offset with
  | nil => exact text.le_afterBlanks offset
  | cons token rest inductionHypothesis =>
      have passed := text.le_afterBlanks offset
      exact passed.trans ((PlacedToken.start_le_stop
        ⟨token, text.afterBlanks offset⟩).trans (inductionHypothesis _))

theorem stop_le_reachFrom
    (member : placed ∈ placeFrom text offset tokens) :
    placed.stop ≤ reachFrom text offset tokens := by
  induction tokens generalizing offset with
  | nil => cases member
  | cons token rest inductionHypothesis =>
      rcases List.mem_cons.1 member with rfl | later
      · exact le_reachFrom _ _ _
      · exact inductionHypothesis later

/-- Only one token stands at an offset. -/
theorem eq_of_covers {place : Nat} {other : PlacedToken}
    (member : placed ∈ placeFrom text offset tokens)
    (otherMember : other ∈ placeFrom text offset tokens)
    (covers : placed.Covers place) (otherCovers : other.Covers place) :
    placed = other := by
  by_contra different
  have symmetric : Std.Symm fun first second : PlacedToken =>
      ¬(first.Covers place ∧ second.Covers place) :=
    ⟨fun _ _ apart both => apart both.symm⟩
  have apart : (placeFrom text offset tokens).Pairwise
      fun first second => ¬(first.Covers place ∧ second.Covers place) := by
    refine (ordered_placeFrom text offset tokens).imp ?_
    rintro first second ordered ⟨⟨_, below⟩, ⟨above, _⟩⟩
    omega
  exact apart.forall member otherMember different ⟨covers, otherCovers⟩

end

/-- The token is a lexeme at its place, or stands for the end of the text. -/
inductive Stands (evaluator : Option Evaluator) (text : Text) :
    PlacedToken → Prop where
  | lexeme {placed : PlacedToken}
      (spelled : text.drop placed.start =
        placed.token.spelling ++ text.drop placed.stop)
      (lexeme : Token.IsLexeme evaluator (text.lineAt placed.start)
        (text.drop placed.stop) placed.token) :
      Stands evaluator text placed
  | ended :
      Stands evaluator text
        ⟨⟨.endOfText, text.lineAt text.length, []⟩, text.length⟩

/-- The stream ends with the end of the text or with an error, and before
that there is neither. -/
inductive EndsOnce : TokenStream → Prop where
  | ended {front : List Token} {last : Token}
      (inside : ∀ token ∈ front, token.kind ≠ .endOfText)
      (final : last.kind = .endOfText) :
      EndsOnce ⟨front ++ [last], none⟩
  | failed {tokens : List Token} {fault : Error}
      (inside : ∀ token ∈ tokens, token.kind ≠ .endOfText) :
      EndsOnce ⟨tokens, some fault⟩

namespace ReadFrom

variable {evaluator : Option Evaluator} {text : Text} {offset : Nat}
  {stream : TokenStream}

theorem stands (read : ReadFrom evaluator text offset stream) :
    ∀ placed ∈ placeFrom text offset stream.tokens,
      Stands evaluator text placed := by
  induction read with
  | ended blank =>
      intro placed member
      rw [List.mem_singleton.1 member, blank]
      exact .ended
  | failed => exact nofun
  | @token offset here stream starts spelled lexeme _
      inductionHypothesis =>
      intro placed member
      have same : (⟨here.token, text.afterBlanks offset⟩ : PlacedToken) =
          here := by
        rw [← starts]
      simp only [after, List.singleton_append, placeFrom, same] at member
      rcases List.mem_cons.1 member with rfl | later
      · exact .lexeme spelled lexeme
      · exact inductionHypothesis placed later

theorem endsOnce (read : ReadFrom evaluator text offset stream) :
    stream.EndsOnce := by
  induction read with
  | ended => exact @EndsOnce.ended [] _ nofun rfl
  | failed => exact .failed nofun
  | token _ _ lexeme _ inductionHypothesis =>
      have here := lexeme.kind_ne
      cases inductionHypothesis with
      | ended inside final =>
          exact @EndsOnce.ended (_ :: _) _
            (List.forall_mem_cons.2 ⟨here, inside⟩) final
      | failed inside =>
          exact .failed (List.forall_mem_cons.2 ⟨here, inside⟩)

theorem reachFrom_eq (read : ReadFrom evaluator text offset stream)
    (faultless : stream.fault = none) :
    reachFrom text offset stream.tokens = text.length := by
  induction read with
  | ended blank =>
      simp only [reachFrom, PlacedToken.stop, Token.spelling,
        List.length_nil, Nat.add_zero, blank]
      rw [Text.afterBlanks, List.drop_length, List.takeWhile_nil,
        List.length_nil, Nat.add_zero]
  | failed => cases faultless
  | token starts _ _ _ inductionHypothesis =>
      have rest := inductionHypothesis faultless
      simp only [after, List.singleton_append, reachFrom, ← starts]
      exact rest

theorem rejected {fault : Error}
    (read : ReadFrom evaluator text offset stream)
    (faulty : stream.fault = some fault) :
    Token.IsRejected evaluator
      (text.lineAt (reachFrom text offset stream.tokens))
      (text.drop (reachFrom text offset stream.tokens)) fault := by
  induction read with
  | ended => cases faulty
  | failed rejected =>
      cases faulty
      exact rejected
  | token starts _ _ _ inductionHypothesis =>
      have rest := inductionHypothesis faulty
      simp only [after, List.singleton_append, reachFrom, ← starts]
      exact rest

end ReadFrom

end TokenStream

/-! ## Runs are maximal -/

namespace Token

namespace RunClass

/-- No longer stretch of the text around this one is a run of the class. -/
def IsMaximal (runs : RunClass) (text : Text) (start stop : Nat) : Prop :=
  runs.isRun (text.extract start stop) = true ∧
    ∀ start' stop', start' ≤ start → stop ≤ stop' → stop' ≤ text.length →
      runs.isRun (text.extract start' stop') = true →
        start' = start ∧ stop' = stop

variable {runs : RunClass}

theorem isRun_of_append {front back : Text} (nonempty : front ≠ [])
    (isRun : runs.isRun (front ++ back) = true) :
    runs.isRun front = true ∧ ∀ byte ∈ back, runs.goesOn byte = true := by
  obtain ⟨first, rest, rfl⟩ := List.exists_cons_of_ne_nil nonempty
  simp only [List.cons_append, RunClass.isRun, List.all_append,
    Bool.and_eq_true, List.all_eq_true] at isRun ⊢
  exact ⟨⟨isRun.1, isRun.2.1⟩, isRun.2.2⟩

theorem not_isBlank_of_starts (known : runs ∈ all) {byte : UInt8}
    (starts : runs.starts byte = true) : isBlank byte = false := by
  by_contra blank
  simp only [isBlank, Bool.not_eq_false, Bool.or_eq_true,
    decide_eq_true_eq] at blank
  revert known runs
  rcases blank with (rfl | rfl) | rfl <;> decide

end RunClass

namespace IsLexeme

variable {evaluator : Option Evaluator} {line : Int} {after : Text}
  {token : Token} {runs : RunClass} {front back : Text}

/-- A run within a token does not reach a byte that closes the token. -/
theorem not_isRun_of_closed (known : runs ∈ RunClass.all) {opening : Text}
    (byte : UInt8)
    (outside : ∀ runs ∈ RunClass.all, runs.goesOn byte = false)
    (split : opening ++ [byte] = front ++ back) :
    runs.isRun back ≠ true := by
  intro isRun
  have last := TokenStream.getLast?_of_suffix
    (split ▸ List.suffix_append front back) (RunClass.ne_nil_of_isRun isRun)
  rw [List.getLast?_concat] at last
  have within := RunClass.goesOn_of_mem known isRun byte
    (List.mem_of_getLast? last)
  rw [outside runs known] at within
  cases within

/-- A run within a token ends with the token. -/
theorem stops_of_suffix (lexeme : IsLexeme evaluator line after token)
    (known : runs ∈ RunClass.all) (split : token.spelling = front ++ back)
    (isRun : runs.isRun back = true) : Stops runs.goesOn after := by
  obtain ⟨first, rest, rfl, starts⟩ := RunClass.exists_cons_of_isRun isRun
  have within {other : RunClass} {run : Text}
      (otherKnown : other ∈ RunClass.all)
      (otherRun : other.isRun run = true)
      (same : run = front ++ first :: rest) :
      other.goesOn first = true :=
    RunClass.goesOn_of_mem otherKnown otherRun first (by simp [same])
  have which := known
  simp only [RunClass.all, List.mem_cons, List.not_mem_nil, or_false]
    at which
  cases lexeme with
  | newline newlines ends =>
      have feed := within RunClass.newlines_mem newlines split
      simp only [RunClass.newlines, beq_iff_eq] at feed
      subst feed
      rcases which with rfl | rfl | rfl
      · exact ends
      · cases starts
      · cases starts
  | number digits ends =>
      have digit : Text.isDigit first = true :=
        within RunClass.numbers_mem digits split
      rcases which with rfl | rfl | rfl
      · rw [beq_iff_eq.1 starts] at digit
        cases digit
      · exact ends
      · have wordStart : isWordStart first = true := starts
        rw [not_isWordStart_of_isDigit digit] at wordStart
        cases wordStart
  | @word word kind wordRun ends classified =>
      have spelled : word = front ++ first :: rest := by
        cases classified <;> exact split
      have wordByte : isWordByte first = true :=
        within RunClass.words_mem wordRun spelled
      rcases which with rfl | rfl | rfl
      · rw [beq_iff_eq.1 starts] at wordByte
        cases wordByte
      · intro byte member
        have stopped := ends byte member
        simp only [RunClass.words, isWordByte, Bool.or_eq_false_iff]
          at stopped
        exact stopped.2
      · exact ends
  | character =>
      exact absurd isRun (not_isRun_of_closed known 0x27 (by decide) split)
  | string =>
      exact absurd isRun (not_isRun_of_closed known 0x22 (by decide) split)
  | punctuation mark =>
      have outside : ∀ runs ∈ RunClass.all,
          runs.goesOn mark.byte = false := by
        cases mark <;> decide
      exact absurd isRun (@not_isRun_of_closed _ _ _ known [] mark.byte
        outside split)
  | formula =>
      exact absurd isRun (not_isRun_of_closed known 0x29 (by decide) split)

end IsLexeme

end Token

namespace TokenStream

variable {evaluator : Option Evaluator} {text : Text} {offset : Nat}
  {stream : TokenStream} {placed : PlacedToken}

theorem extract_eq_spelling
    (spelled : text.drop placed.start =
      placed.token.spelling ++ text.drop placed.stop) :
    text.extract placed.start placed.stop = placed.token.spelling := by
  rw [List.extract_eq_take_drop, spelled, PlacedToken.stop,
    Nat.add_sub_cancel_left, List.take_left]

theorem extract_split (text : Text) {start middle stop : Nat}
    (first : start ≤ middle) (second : middle ≤ stop) :
    text.extract start stop =
      text.extract start middle ++ text.extract middle stop := by
  have size : stop - start = (middle - start) + (stop - middle) := by omega
  simp only [List.extract_eq_take_drop]
  rw [size, List.take_add, List.drop_drop, Nat.add_sub_cancel' first]

/-- A run that starts within a token does not go on after it. -/
theorem stop_le_of_isRun {runs : Token.RunClass} {start stop : Nat}
    (known : runs ∈ Token.RunClass.all)
    (spelled : text.drop placed.start =
      placed.token.spelling ++ text.drop placed.stop)
    (lexeme : Token.IsLexeme evaluator (text.lineAt placed.start)
      (text.drop placed.stop) placed.token)
    (covers : placed.Covers start) (inside : stop ≤ text.length)
    (isRun : runs.isRun (text.extract start stop) = true) :
    stop ≤ placed.stop := by
  by_contra beyond
  have further : placed.stop < stop := Nat.lt_of_not_le beyond
  obtain ⟨above, below⟩ := covers
  have token : placed.token.spelling =
      text.extract placed.start start ++ text.extract start placed.stop := by
    rw [← extract_eq_spelling spelled, extract_split text above below.le]
  have nonempty : text.extract start placed.stop ≠ [] := by
    rw [← List.length_pos_iff, List.extract_eq_take_drop, List.length_take,
      List.length_drop]
    omega
  rw [extract_split text below.le further.le] at isRun
  obtain ⟨backRun, goesOn⟩ := Token.RunClass.isRun_of_append nonempty isRun
  have stopped := lexeme.stops_of_suffix known token backRun
  -- the byte after the token is one of the run
  have next : text[placed.stop]? = some text[placed.stop] :=
    List.getElem?_eq_getElem (further.trans_le inside)
  have member : text[placed.stop] ∈ text.extract placed.stop stop := by
    rw [List.extract_eq_take_drop, List.mem_take_iff_getElem]
    refine ⟨0, ?_, by simp⟩
    rw [List.length_drop]
    omega
  have ended := stopped _ (List.head?_drop.trans next)
  rw [goesOn _ member] at ended
  cases ended

theorem starts_of_isRun_extract {runs : Token.RunClass} {start stop : Nat}
    (isRun : runs.isRun (text.extract start stop) = true) :
    ∃ first, text[start]? = some first ∧ runs.starts first = true := by
  obtain ⟨first, rest, whole, starts⟩ :=
    Token.RunClass.exists_cons_of_isRun isRun
  refine ⟨first, ?_, starts⟩
  have head := congrArg List.head? whole
  rw [List.extract_eq_take_drop, List.head?_take] at head
  split at head
  · cases head
  · rw [← List.head?_drop]
    exact head

theorem ReadFrom.isMaximal {runs : Token.RunClass}
    (read : ReadFrom evaluator text 0 stream)
    (member : placed ∈ stream.placed text)
    (known : runs ∈ Token.RunClass.all)
    (isRun : runs.isRun placed.token.spelling = true) :
    runs.IsMaximal text placed.start placed.stop := by
  cases read.stands placed member with
  | ended => cases isRun
  | lexeme spelled lexeme =>
      have nonempty := List.length_pos_iff.2 lexeme.spelling_ne_nil
      have longer : placed.start < placed.stop := by
        rw [PlacedToken.stop]
        omega
      refine ⟨by rw [extract_eq_spelling spelled]; exact isRun, ?_⟩
      intro start stop above below inside wider
      obtain ⟨first, first?, starts⟩ := starts_of_isRun_extract wider
      -- the token that stands where the wider run starts
      have passed : start < reachFrom text 0 stream.tokens :=
        (above.trans_lt longer).trans_le (stop_le_reachFrom member)
      rcases covered_placeFrom (Nat.zero_le start) passed with
        ⟨other, otherMember, covers⟩ | ⟨byte, byte?, blank⟩
      · have bounded : stop ≤ other.stop := by
          cases read.stands other otherMember with
          | ended => exact absurd covers.2 (Nat.not_lt.2 covers.1)
          | lexeme spelled lexeme =>
              exact stop_le_of_isRun known spelled lexeme covers inside wider
        have same : placed = other :=
          eq_of_covers member otherMember ⟨Nat.le_refl _, longer⟩
            ⟨covers.1.trans above, longer.trans_le (below.trans bounded)⟩
        subst same
        exact ⟨Nat.le_antisymm above covers.1,
          Nat.le_antisymm bounded below⟩
      · rw [first?] at byte?
        cases byte?
        rw [Token.RunClass.not_isBlank_of_starts known starts] at blank
        cases blank

/--
What a text and the tokens read from it have to do with each other.

Between tokens there are blanks only, so that the spans of the tokens and
the gaps between them make up the text as far as it has been read.
-/
structure IsAnalysis (evaluator : Option Evaluator) (text : Text)
    (stream : TokenStream) : Prop where
  /-- No index and no slice is out of range where positions are used. -/
  inBounds : Indexed.tokenize evaluator text = .ok stream
  ending : stream.EndsOnce
  places : (stream.placed text).map PlacedToken.token = stream.tokens
  /-- The span of a token lies in the text and holds its spelling. -/
  spelled : ∀ placed ∈ stream.placed text,
    placed.stop ≤ text.length ∧
      text.extract placed.start placed.stop = placed.token.spelling
  nonempty : ∀ placed ∈ stream.placed text,
    placed.token.kind ≠ .endOfText → placed.start < placed.stop
  /-- Spans are in order and disjoint. -/
  ordered : (stream.placed text).Pairwise
    fun earlier later => earlier.stop ≤ later.start
  gaps : ∀ offset < stream.reached text,
    (∃ placed ∈ stream.placed text, placed.Covers offset) ∨
      ∃ byte, text[offset]? = some byte ∧ Token.isBlank byte = true
  /-- Without an error the whole text has been read. -/
  whole : stream.fault = none → stream.reached text = text.length
  lexemes : ∀ placed ∈ stream.placed text,
    placed.token.kind ≠ .endOfText →
      Token.IsLexeme evaluator placed.token.line
        (text.drop placed.stop) placed.token
  maximal : ∀ placed ∈ stream.placed text,
    ∀ runs ∈ Token.RunClass.all,
      runs.isRun placed.token.spelling = true →
        runs.IsMaximal text placed.start placed.stop
  /-- Digits are read as the number that they stand for. -/
  numbers : ∀ placed ∈ stream.placed text,
    Token.RunClass.numbers.isRun placed.token.spelling = true →
      ∃ value : Int64, placed.token.kind = .integer value ∧
        value.toInt = Text.decimalValue placed.token.spelling
  /-- Digits that are not read stand for a number that is out of range. -/
  range : ∀ digits after, text.drop (stream.reached text) = digits ++ after →
    Token.RunClass.numbers.isRun digits = true →
      Token.Stops Token.RunClass.numbers.goesOn after →
        2 ^ 63 ≤ Text.decimalValue digits ∧ ∃ line,
          stream.fault = some (.malformed line digits .numberRange)
  /-- An error is about what stands where reading has stopped. -/
  rejected : ∀ fault, stream.fault = some fault →
    stream.reached text < text.length ∧
      ∃ line, Token.IsRejected evaluator line
        (text.drop (stream.reached text)) fault

end TokenStream

/-- Reading a text loses nothing of it, and every run is read as a whole. -/
theorem tokenize_isAnalysis (evaluator : Option Evaluator) (text : Text) :
    (tokenize evaluator text).IsAnalysis evaluator text := by
  have read := TokenStream.readFrom_tokenize evaluator text
  constructor
  case inBounds => exact Indexed.tokenize_eq evaluator text
  case ending => exact read.endsOnce
  case places => exact TokenStream.map_token_placeFrom text 0 _
  case spelled =>
    intro placed member
    cases read.stands placed member with
    | ended => simp [PlacedToken.stop, Token.spelling]
    | lexeme spelled lexeme =>
        have nonempty := List.length_pos_iff.2 lexeme.spelling_ne_nil
        have lengths := congrArg List.length spelled
        rw [List.length_drop, List.length_append] at lengths
        refine ⟨?_, TokenStream.extract_eq_spelling spelled⟩
        rw [PlacedToken.stop]
        omega
  case nonempty =>
    intro placed member inside
    cases read.stands placed member with
    | ended => exact absurd rfl inside
    | lexeme spelled lexeme =>
        have nonempty := List.length_pos_iff.2 lexeme.spelling_ne_nil
        rw [PlacedToken.stop]
        omega
  case ordered => exact TokenStream.ordered_placeFrom text 0 _
  case gaps =>
    intro offset below
    exact TokenStream.covered_placeFrom (Nat.zero_le offset) below
  case whole => exact read.reachFrom_eq
  case lexemes =>
    intro placed member inside
    cases read.stands placed member with
    | ended => exact absurd rfl inside
    | lexeme spelled lexeme =>
        rw [lexeme.line_eq]
        exact lexeme
  case maximal =>
    intro placed member runs known isRun
    exact read.isMaximal member known isRun
  case numbers =>
    intro placed member isRun
    cases read.stands placed member with
    | ended => cases isRun
    | lexeme spelled lexeme => exact lexeme.integer_of_isRun isRun
  case range =>
    intro digits after left isRun ends
    cases faulty : (tokenize evaluator text).fault with
    | none =>
        have last : (tokenize evaluator text).reached text = text.length :=
          read.reachFrom_eq faulty
        rw [last, List.drop_length] at left
        obtain ⟨first, rest, rfl, -⟩ :=
          Token.RunClass.exists_cons_of_isRun isRun
        cases left
    | some fault =>
        have rejected : Token.IsRejected evaluator _
            (text.drop ((tokenize evaluator text).reached text)) fault :=
          read.rejected faulty
        rw [left] at rejected
        obtain ⟨large, rfl⟩ := rejected.numberRange_of_isRun isRun ends
        exact ⟨large, _, rfl⟩
  case rejected =>
    intro fault faulty
    have rejected : Token.IsRejected evaluator _
        (text.drop ((tokenize evaluator text).reached text)) fault :=
      read.rejected faulty
    refine ⟨?_, _, rejected⟩
    by_contra outside
    rw [List.drop_eq_nil_of_le (Nat.le_of_not_lt outside)] at rejected
    exact rejected.ne_nil rfl

end FlatAsm
