import FlatAsm.Proofs.ParserSimulation
import FlatAsm.Proofs.StatementGrammar

/-!
# Parsing is compositional in lines

Parsing whole lines and then more text gives the statements of the lines and
then those of the text, as if it were parsed on its own but with its line
numbers counted on.  If parsing the lines fails, it fails in the same way
whatever follows.
-/

namespace FlatAsm

/-! ## The same stream after more lines -/

/-- The place in a stream that stands after more lines. -/
def Cursor.shift (lines : Int) (cursor : Cursor) : Cursor where
  current := cursor.current.shift lines
  upcoming := cursor.upcoming.map (Token.shift lines)
  fault := cursor.fault.map (Error.shift lines)

namespace Parse

variable {lines : Int} {cursor after : Cursor}

theorem advance_shift_of_ok (moved : advance cursor = .ok () after) :
    advance (cursor.shift lines) = .ok () (after.shift lines) := by
  rcases cursor with ⟨current, _ | ⟨token, rest⟩, _ | fault⟩ <;> cases moved
  all_goals rfl

theorem advance_shift_of_error {fault : Error}
    (failed : advance cursor = .error fault after) :
    advance (cursor.shift lines) =
      .error (fault.shift lines) (after.shift lines) := by
  rcases cursor with ⟨current, _ | ⟨token, rest⟩, _ | fault⟩ <;> cases failed
  rfl

theorem agree_shift (lines : Int) (cursor : Cursor) :
    Cursor.Agree lines (fun place other => other = place.shift lines)
      cursor (cursor.shift lines) := by
  have alike (token : Token) : Token.Alike lines token (token.shift lines) :=
    ⟨rfl, rfl, fun _ => rfl⟩
  induction size : cursor.remaining using Nat.strongRecOn
    generalizing cursor with
  | ind size inductionHypothesis =>
  subst size
  cases ends : cursor.current.endsStatement with
  | true => exact .ended (alike _) ends rfl
  | false =>
      have inside : cursor.current.kind ≠ .endOfText := by
        intro kind
        simp [Token.endsStatement, kind] at ends
      cases moved : advance cursor with
      | error fault after =>
          exact .failed (alike _) ends moved (advance_shift_of_error moved)
      | ok _ after =>
          exact .moved (alike _) ends moved (advance_shift_of_ok moved)
            (inductionHypothesis _ (advance_remaining_lt moved inside) _ rfl)

theorem skipNewlines_eq :
    skipNewlines =
      (do
        if (← current).kind = .newline then
          advance
          skipNewlines
        else return ()) := by
  funext cursor
  rw [skipNewlines, current_bind]
  split
  · split
    · next moved => rw [bind_of_error moved]
    · next moved => rw [bind_of_ok moved]
  · rfl

theorem skipNewlines_of_newline
    (newline : cursor.current.kind = .newline)
    (moved : advance cursor = .ok () after) :
    skipNewlines cursor = skipNewlines after := by
  rw [skipNewlines_eq, current_bind, if_pos newline, bind_of_ok moved,
    ← skipNewlines_eq]

theorem simulates_skipNewlines_shift (lines : Int) (cursor : Cursor) :
    Simulates lines (fun place other => other = place.shift lines) Eq
      cursor (cursor.shift lines) skipNewlines skipNewlines := by
  induction size : cursor.remaining using Nat.strongRecOn
    generalizing cursor with
  | ind size inductionHypothesis =>
  subst size
  rw [skipNewlines_eq]
  refine simulates_current (agree_shift lines cursor) fun alike => ?_
  rw [alike.kind]
  split
  · next newline =>
    unfold Simulates
    cases moved : advance cursor with
    | error fault after =>
        rw [bind_of_error moved,
          bind_of_error (advance_shift_of_error moved)]
        exact .error
    | ok _ after =>
        rw [bind_of_ok moved, bind_of_ok (advance_shift_of_ok moved)]
        exact inductionHypothesis _
          (advance_remaining_lt moved (by simp [newline])) _ rfl
  · exact simulates_pure (agree_shift lines cursor) rfl

theorem simulates_statement_shift (width : Width)
    (constants : Table Int64) (lines : Int) (cursor : Cursor) :
    Simulates lines (fun place other => other = place.shift lines)
      (fun found found' => found' = found.map (Item.shift lines))
      cursor (cursor.shift lines) (statement width constants)
      (statement width constants) :=
  (simulates_skipNewlines_shift lines cursor).bindSame fun _ agree =>
    simulates_statementHere agree width constants

theorem statement_of_newline {width : Width} {constants : Table Int64}
    (newline : cursor.current.kind = .newline)
    (moved : advance cursor = .ok () after) :
    statement width constants cursor = statement width constants after := by
  simp only [statement, bind, EStateM.bind,
    skipNewlines_of_newline newline moved]

theorem statement_of_newline_of_error {width : Width}
    {constants : Table Int64} {fault : Error}
    (newline : cursor.current.kind = .newline)
    (failed : advance cursor = .error fault after) :
    statement width constants cursor = .error fault after := by
  apply bind_of_error
  rw [skipNewlines_eq, current_bind, if_pos newline, bind_of_error failed]

theorem statementHere_eq_none_iff {width : Width}
    {constants : Table Int64} :
    statementHere width constants cursor = .ok none after ↔
      cursor.current.kind = .endOfText ∧ after = cursor := by
  constructor
  · intro parsed
    unfold statementHere at parsed
    split at parsed
    · next kind =>
      cases parsed
      exact ⟨kind, rfl⟩
    · rcases bind_ok_iff.1 parsed with ⟨_, middle, -, done⟩
      cases (complete_ok_iff.1 done).2.2
    · rcases bind_ok_iff.1 parsed with ⟨_, middle, -, done⟩
      cases (complete_ok_iff.1 done).2.2
    · cases parsed
  · rintro ⟨kind, rfl⟩
    simp [statementHere, kind]

/-- Wherever a statement has been parsed, its line has ended. -/
theorem endsStatement_of_statementHere {width : Width}
    {constants : Table Int64} {item : Item}
    (parsed : statementHere width constants cursor =
      .ok (some item) after) :
    after.current.endsStatement = true := by
  rcases statementHere_ok_iff.1 parsed with ⟨_, -, -, ends⟩
  exact ends

theorem statement_of_skipNewlines (width : Width)
    (constants : Table Int64)
    (skipped : skipNewlines cursor = .ok () after) :
    statement width constants cursor =
      statementHere width constants after :=
  bind_of_ok skipped

end Parse

namespace Parser

variable {width : Width} {constants : Table Int64}

/-- What is delivered, by what the next statement is. -/
theorem delivers_started_iff {cursor : Cursor} {items : List Item}
    {fault : Option Error} :
    Delivers ⟨width, constants, cursor, true⟩ items fault ↔
      match Parse.statement width constants cursor with
      | .error error _ => items = [] ∧ fault = some error
      | .ok none _ => items = [] ∧ fault = none
      | .ok (some item) after =>
          ∃ others, items = item :: others ∧
            Delivers ⟨width, constants, after, true⟩ others fault := by
  have next := next_started width constants cursor
  cases parsed : Parse.statement width constants cursor with
  | error error after =>
      rw [parsed] at next
      have failed := Delivers.failed (congrArg Prod.fst next)
      constructor
      · exact fun delivered => delivered.unique failed
      · rintro ⟨rfl, rfl⟩
        exact failed
  | ok found after =>
      rw [parsed] at next
      cases found with
      | none =>
          have ended := Delivers.ended (congrArg Prod.fst next)
          constructor
          · exact fun delivered => delivered.unique ended
          · rintro ⟨rfl, rfl⟩
            exact ended
      | some item =>
          constructor
          · intro delivered
            cases delivered with
            | ended done => rw [next] at done; cases done
            | failed failure => rw [next] at failure; cases failure
            | item given others =>
                rw [next] at given others
                cases given
                exact ⟨_, rfl, others⟩
          · rintro ⟨others, rfl, delivered⟩
            apply Delivers.item
            · rw [next]
            · rw [next]
              exact delivered

/-- Statements after more lines are the same, with later line numbers. -/
theorem Delivers.shift {cursor : Cursor} {items : List Item}
    {fault : Option Error} (lines : Int)
    (delivered : Delivers ⟨width, constants, cursor, true⟩ items fault) :
    Delivers ⟨width, constants, cursor.shift lines, true⟩
      (items.map (Item.shift lines)) (fault.map (Error.shift lines)) := by
  induction size : cursor.remaining using Nat.strongRecOn
    generalizing cursor items with
  | ind size inductionHypothesis =>
  subst size
  have step := Parse.simulates_statement_shift width constants lines cursor
  unfold Parse.Simulates at step
  rw [delivers_started_iff] at delivered ⊢
  generalize parsed : Parse.statement width constants cursor = outcome
    at step delivered
  generalize parsed' : Parse.statement width constants
    (cursor.shift lines) = outcome' at step
  cases step with
  | error =>
      rcases delivered with ⟨rfl, rfl⟩
      exact ⟨rfl, rfl⟩
  | @ok found _ after after' values agree =>
      subst values
      cases found with
      | none =>
          rcases delivered with ⟨rfl, rfl⟩
          exact ⟨rfl, rfl⟩
      | some item =>
          rcases delivered with ⟨others, rfl, delivered⟩
          rcases Parse.bind_ok_iff.1 parsed with ⟨_, start, -, here⟩
          have shifted : after' = after.shift lines :=
            agree.known (Parse.endsStatement_of_statementHere here)
          subst shifted
          exact ⟨_, rfl, inductionHypothesis _
            (Parse.statement_remaining_lt parsed) delivered rfl⟩

end Parser

/-! ## Longer streams -/

/-- A line end that is the last token but one, and one before more tokens. -/
structure Ending where
  line : Int
  feeds : Text
  final : Int
  longer : Text
  more : TokenStream

namespace Ending

/-- The line end before the end of the text. -/
def last (ending : Ending) : Token :=
  ⟨.newline, ending.line, ending.feeds⟩

/-- The end of the text. -/
def endOfText (ending : Ending) : Token :=
  ⟨.endOfText, ending.final, []⟩

/-- The place of the line end before more tokens. -/
def place (ending : Ending) : Cursor :=
  ⟨⟨.newline, ending.line, ending.longer⟩, ending.more.tokens,
    ending.more.fault⟩

/-- Both places are before the same tokens, and then before the line end. -/
structure Before (ending : Ending) (front : List Token)
    (cursor other : Cursor) : Prop where
  inside : ∀ token ∈ front, token.kind ≠ .endOfText
  ahead : cursor.ahead = front ++ [ending.last, ending.endOfText]
  faultless : cursor.fault = none
  otherAhead : other.ahead = front ++ ending.place.ahead
  otherFault : other.fault = ending.more.fault

variable {ending : Ending} {token : Token} {front : List Token}
  {cursor other : Cursor}

theorem Before.current (before : ending.Before (token :: front) cursor other) :
    cursor.current = token ∧ other.current = token :=
  ⟨(List.cons.inj before.ahead).1, (List.cons.inj before.otherAhead).1⟩

theorem Before.other_eq (before : ending.Before [] cursor other) :
    other = ending.place := by
  rcases other with ⟨current, upcoming, fault⟩
  cases before.otherAhead
  cases before.otherFault
  rfl

/-- Moving past a token that both places share. -/
theorem Before.advance
    (before : ending.Before (token :: front) cursor other) :
    ∃ after otherAfter, Parse.advance cursor = .ok () after ∧
      Parse.advance other = .ok () otherAfter ∧
      ending.Before front after otherAfter := by
  have upcoming := (List.cons.inj before.ahead).2
  have otherUpcoming := (List.cons.inj before.otherAhead).2
  have inside : ∀ token ∈ front, token.kind ≠ .endOfText :=
    fun token member => before.inside token (List.mem_cons_of_mem _ member)
  cases front with
  | nil =>
      exact ⟨_, _, Cursor.advance_of_upcoming upcoming,
        Cursor.advance_of_upcoming otherUpcoming,
        ⟨inside, rfl, before.faultless, rfl, before.otherFault⟩⟩
  | cons next rest =>
      exact ⟨_, _, Cursor.advance_of_upcoming upcoming,
        Cursor.advance_of_upcoming otherUpcoming,
        ⟨inside, rfl, before.faultless, rfl, before.otherFault⟩⟩

theorem Before.agree (before : ending.Before front cursor other) :
    Cursor.Agree 0
      (fun place place' => ∃ front, ending.Before front place place')
      cursor other := by
  induction front generalizing cursor other with
  | nil =>
      have current : cursor.current = ending.last :=
        (List.cons.inj before.ahead).1
      refine .ended ?_ ?_ ⟨[], before⟩
      · rw [current, before.other_eq]
        exact ⟨rfl, (Int.add_zero _).symm, nofun⟩
      · rw [current]
        rfl
  | cons token front inductionHypothesis =>
      rcases before.current with ⟨current, otherCurrent⟩
      have alike : Token.Alike 0 cursor.current other.current := by
        rw [current, otherCurrent]
        exact ⟨rfl, (Int.add_zero _).symm, fun _ => rfl⟩
      cases ends : cursor.current.endsStatement with
      | true => exact .ended alike ends ⟨_, before⟩
      | false =>
          rcases before.advance with
            ⟨after, otherAfter, moved, otherMoved, later⟩
          exact .moved alike ends moved otherMoved
            (inductionHypothesis later)

/--
Moving past line ends, both places stay before the same tokens, unless there
are only line ends in front of the last one.
-/
theorem Before.skipNewlines (before : ending.Before front cursor other) :
    (∃ front after otherAfter,
      Parse.skipNewlines cursor = .ok () after ∧
        Parse.skipNewlines other = .ok () otherAfter ∧
        ending.Before front after otherAfter ∧
        after.current.kind ≠ .endOfText) ∨
    (∃ after, Parse.skipNewlines cursor = .ok () after ∧
        after.current.kind = .endOfText) ∧
      Parse.skipNewlines other = Parse.skipNewlines ending.place := by
  induction front generalizing cursor other with
  | nil =>
      right
      constructor
      · have moved : Parse.advance cursor = .ok () _ :=
          Cursor.advance_of_upcoming (List.cons.inj before.ahead).2
        have newline : cursor.current.kind = .newline := by
          rw [(List.cons.inj before.ahead).1]
          rfl
        refine ⟨⟨ending.endOfText, [], cursor.fault⟩, ?_, rfl⟩
        rw [Parse.skipNewlines_of_newline newline moved,
          Parse.skipNewlines_eq]
        rfl
      · rw [before.other_eq]
  | cons token front inductionHypothesis =>
      rcases before.current with ⟨current, otherCurrent⟩
      by_cases newline : token.kind = .newline
      · rcases before.advance with
          ⟨after, otherAfter, moved, otherMoved, later⟩
        rw [Parse.skipNewlines_of_newline (current ▸ newline) moved,
          Parse.skipNewlines_of_newline (otherCurrent ▸ newline) otherMoved]
        exact inductionHypothesis later
      · left
        have stays (place : Cursor) (same : place.current = token) :
            Parse.skipNewlines place = .ok () place := by
          rw [Parse.skipNewlines_eq, Parse.current_bind, same,
            if_neg newline]
          rfl
        refine ⟨token :: front, cursor, other, stays cursor current,
          stays other otherCurrent, before, ?_⟩
        rw [current]
        exact before.inside token List.mem_cons_self

/-- What follows the statements of the shorter stream in the longer one. -/
def Continues (ending : Ending) (width : Width) (constants : Table Int64)
    (items : List Item) (fault : Option Error) : Option Error → Prop
  | some error => items = [] ∧ fault = some error
  | none =>
      Parser.Delivers ⟨width, constants, ending.place, true⟩ items fault

/-- The longer stream has the same statements, and then those of the rest. -/
theorem Before.delivers {width : Width} {constants : Table Int64}
    {items items' : List Item} {fault fault' : Option Error}
    (before : ending.Before front cursor other)
    (delivered :
      Parser.Delivers ⟨width, constants, cursor, true⟩ items fault)
    (further : ending.Continues width constants items' fault' fault) :
    Parser.Delivers ⟨width, constants, other, true⟩ (items ++ items')
      fault' := by
  induction size : cursor.remaining using Nat.strongRecOn
    generalizing cursor other front items with
  | ind size inductionHypothesis =>
  subst size
  rw [Parser.delivers_started_iff] at delivered ⊢
  -- a statement starts before the last line end, or there is none left
  rcases before.skipNewlines with
    ⟨later, start, otherStart, skipped, otherSkipped, before', inside⟩ |
      ⟨⟨start, skipped, ended⟩, same⟩
  · have step := Parse.simulates_statementHere before'.agree width constants
    unfold Parse.Simulates at step
    rw [Parse.statement_of_skipNewlines width constants skipped] at delivered
    rw [Parse.statement_of_skipNewlines width constants otherSkipped]
    generalize parsed : Parse.statementHere width constants start = outcome
      at step delivered
    generalize Parse.statementHere width constants otherStart = outcome'
      at step
    cases step with
    | error =>
        rcases delivered with ⟨rfl, rfl⟩
        rcases further with ⟨rfl, rfl⟩
        simp
    | @ok found _ after after' values agree =>
        subst values
        cases found with
        | none =>
            exact absurd (Parse.statementHere_eq_none_iff.1 parsed).1 inside
        | some item =>
            rcases delivered with ⟨others, rfl, later⟩
            rcases
                agree.known (Parse.endsStatement_of_statementHere parsed) with
              ⟨front', before''⟩
            refine ⟨others ++ items', ?_, ?_⟩
            · rw [Item.shift_zero]
              rfl
            · refine inductionHypothesis _ ?_ before'' later rfl
              exact Nat.lt_of_lt_of_le
                (Parse.statementHere_remaining_lt parsed)
                (Parse.skipNewlines_neverGrows skipped)
  · rw [Parse.statement_of_skipNewlines width constants skipped,
      Parse.statementHere_eq_none_iff.2 ⟨ended, rfl⟩] at delivered
    rcases delivered with ⟨rfl, rfl⟩
    have further := Parser.delivers_started_iff.1 further
    have sameStatement : Parse.statement width constants other =
        Parse.statement width constants ending.place := by
      simp only [Parse.statement, bind, EStateM.bind, same]
    rw [sameStatement]
    exact further

end Ending

/-! ## Streams from their beginning -/

namespace Parser

variable {width : Width} {constants : Table Int64} {items : List Item}
  {fault : Option Error}

theorem delivers_at_end {cursor : Cursor}
    (ended : cursor.current.kind = .endOfText) :
    Delivers ⟨width, constants, cursor, true⟩ [] none := by
  have skipped : Parse.skipNewlines cursor = .ok () cursor := by
    rw [Parse.skipNewlines_eq, Parse.current_bind, ended]
    rfl
  rw [delivers_started_iff,
    Parse.statement_of_skipNewlines width constants skipped,
    Parse.statementHere_eq_none_iff.2 ⟨ended, rfl⟩]
  exact ⟨rfl, rfl⟩

theorem Delivers.iff_of_both {parser other : Parser}
    {common : List Item} {error : Option Error}
    (first : Delivers parser common error)
    (second : Delivers other common error) :
    Delivers parser items fault ↔ Delivers other items fault := by
  constructor
  · intro delivered
    rcases delivered.unique first with ⟨rfl, rfl⟩
    exact second
  · intro delivered
    rcases delivered.unique second with ⟨rfl, rfl⟩
    exact first

theorem delivers_ofStream_cons_iff {token : Token} {rest : List Token}
    {error : Option Error} :
    Delivers (ofStream width constants ⟨token :: rest, error⟩) items
        fault ↔
      Delivers ⟨width, constants, ⟨token, rest, error⟩, true⟩ items
        fault := by
  have moved : Parse.advance (.ofStream ⟨token :: rest, error⟩) =
      .ok () ⟨token, rest, error⟩ := rfl
  have next := next_ofStream width constants moved
  constructor
  · exact Delivers.congr next
  · exact Delivers.congr next.symm

/-- A line end before all tokens makes no difference. -/
theorem delivers_afterNewline_iff (line : Int) (feeds : Text)
    (stream : TokenStream) :
    Delivers ⟨width, constants,
        ⟨⟨.newline, line, feeds⟩, stream.tokens, stream.fault⟩, true⟩
        items fault ↔
      Delivers (ofStream width constants stream) items fault := by
  rcases stream with ⟨_ | ⟨token, rest⟩, fault'⟩
  · cases fault' with
    | none =>
        refine Delivers.iff_of_both (?_ : Delivers _ [] none) ?_
        · rw [delivers_started_iff, Parse.statement_of_newline rfl rfl,
            ← delivers_started_iff]
          exact delivers_at_end rfl
        · apply Delivers.congr (next_ofStream width constants rfl).symm
          exact delivers_at_end rfl
    | some error =>
        refine Delivers.iff_of_both (?_ : Delivers _ [] (some error)) ?_
        · rw [delivers_started_iff,
            Parse.statement_of_newline_of_error rfl rfl]
          exact ⟨rfl, rfl⟩
        · exact .failed rfl
  · rw [delivers_started_iff, Parse.statement_of_newline rfl rfl,
      ← delivers_started_iff, delivers_ofStream_cons_iff]

/-- Line ends at the front of a text make no difference. -/
theorem delivers_pastFeeds_iff (evaluator : Option Evaluator) (line : Int)
    (text : Text) :
    Delivers (ofStream width constants
        (TokenStream.scanFrom evaluator
          (line + (TokenStream.leadingFeeds text).length)
          (TokenStream.pastFeeds text))) items fault ↔
      Delivers (ofStream width constants
        (TokenStream.scanFrom evaluator line text)) items fault := by
  cases text with
  | nil => simp [TokenStream.leadingFeeds, TokenStream.pastFeeds]
  | cons byte rest =>
      by_cases feed : byte = Token.lineFeed
      · subst feed
        have leading : TokenStream.leadingFeeds (Token.lineFeed :: rest) =
            Token.lineFeed :: TokenStream.leadingFeeds rest := rfl
        have past : TokenStream.pastFeeds (Token.lineFeed :: rest) =
            TokenStream.pastFeeds rest := rfl
        have front : (Token.lineFeed :: rest).dropWhile Token.isBlank =
            Token.lineFeed :: rest := rfl
        rw [leading, past, TokenStream.scanFrom_feed front,
          TokenStream.after, List.singleton_append,
          delivers_ofStream_cons_iff, delivers_afterNewline_iff,
          List.length_cons, Int.natCast_succ, Int.add_comm _ 1,
          ← Int.add_assoc]
      · simp [TokenStream.leadingFeeds, TokenStream.pastFeeds, feed]

theorem Delivers.shiftStream {stream : TokenStream} (lines : Int)
    (delivered : Delivers (ofStream width constants stream) items fault) :
    Delivers (ofStream width constants (stream.shift lines))
      (items.map (Item.shift lines)) (fault.map (Error.shift lines)) := by
  rw [← delivers_afterNewline_iff 0 []] at delivered
  rw [← delivers_afterNewline_iff (0 + lines) []]
  exact delivered.shift lines

/-! ### Streams that end in an error -/

/-- The stream ends in an error, and nowhere before it. -/
structure Faulty (cursor : Cursor) : Prop where
  fault : cursor.fault ≠ none
  inside : ∀ token ∈ cursor.ahead, token.kind ≠ .endOfText

theorem Faulty.advance {cursor after : Cursor} (faulty : Faulty cursor)
    (moved : Parse.advance cursor = .ok () after) : Faulty after := by
  rcases cursor with ⟨current, _ | ⟨token, rest⟩, _ | error⟩
  · exact absurd rfl faulty.fault
  · cases moved
  · exact absurd rfl faulty.fault
  · cases moved
    constructor
    · exact faulty.fault
    · exact (List.forall_mem_cons.1 faulty.inside).2

theorem Faulty.passes {cursor after : Cursor} {tokens : List Token}
    (faulty : Faulty cursor) (passed : cursor.Passes tokens after) :
    Faulty after := by
  induction passed with
  | here => exact faulty
  | move moved _ inductionHypothesis =>
      exact inductionHypothesis (faulty.advance moved)

theorem Faulty.skipNewlines {cursor after : Cursor}
    (faulty : Faulty cursor)
    (skipped : Parse.skipNewlines cursor = .ok () after) :
    Faulty after := by
  rcases Parse.passes_of_skipNewlines skipped with ⟨tokens, passed⟩
  exact faulty.passes passed

/-- A stream that ends in an error is never parsed to its end. -/
theorem Faulty.not_delivers {cursor : Cursor} (faulty : Faulty cursor) :
    ¬Delivers ⟨width, constants, cursor, true⟩ items none := by
  induction size : cursor.remaining using Nat.strongRecOn
    generalizing cursor items with
  | ind size inductionHypothesis =>
  subst size
  intro delivered
  rw [delivers_started_iff] at delivered
  split at delivered
  · cases delivered.2
  · next parsed =>
    rcases Parse.bind_ok_iff.1 parsed with ⟨_, start, skipped, here⟩
    exact (faulty.skipNewlines skipped).inside _ List.mem_cons_self
      (Parse.statementHere_eq_none_iff.1 here).1
  · next item after parsed =>
    rcases delivered with ⟨others, -, later⟩
    rcases Parse.bind_ok_iff.1 parsed with ⟨_, start, skipped, here⟩
    rcases Parse.statementHere_ok_iff.1 here with ⟨tokens, passed, -, -⟩
    exact inductionHypothesis _ (Parse.statement_remaining_lt parsed)
      ((faulty.skipNewlines skipped).passes passed) rfl later

/-! ## Texts -/

theorem delivers_empty (evaluator : Option Evaluator) :
    Delivers (ofText evaluator width constants []) [] none := by
  rw [ofText, TokenStream.tokenize_eq_scanFrom, TokenStream.scanFrom_nil,
    delivers_ofStream_cons_iff]
  exact delivers_at_end rfl

section

variable {evaluator : Option Evaluator} {lines : Text}

/-- A place after a line end and before all tokens of a stream. -/
def afterNewline (stream : TokenStream) : Cursor :=
  ⟨⟨.newline, 0, []⟩, stream.tokens, stream.fault⟩

/-- Lines are scanned in the same way whatever follows them. -/
theorem faulty_or_before (evaluator : Option Evaluator)
    (ends : lines.getLast? = some Token.lineFeed) (text : Text) :
    (Faulty (afterNewline (tokenize evaluator lines)) ∧
      tokenize evaluator (lines ++ text) = tokenize evaluator lines) ∨
    ∃ (ending : Ending) (front : List Token),
      ending.Before front (afterNewline (tokenize evaluator lines))
        (afterNewline (tokenize evaluator (lines ++ text))) ∧
      ending.more =
        TokenStream.scanFrom evaluator
          (1 + lines.count Token.lineFeed +
            (TokenStream.leadingFeeds text).length)
          (TokenStream.pastFeeds text) := by
  have alone (text : Text) : tokenize evaluator text =
    TokenStream.scanFrom evaluator 1 text := rfl
  rcases TokenStream.readByLines evaluator 1 ends with
    @⟨tokens, fault, inside, scans⟩ | @⟨front, last, inside, scans⟩
  · left
    have scan := scans []
    rw [List.append_nil] at scan
    rw [alone, alone, scan, scans]
    refine ⟨⟨by simp [afterNewline], ?_⟩, rfl⟩
    exact List.forall_mem_cons.2 ⟨by simp [afterNewline], inside⟩
  · right
    rcases scans [] with ⟨feeds, scan⟩
    rcases scans text with ⟨longer, longerScan⟩
    let ending : Ending :=
      ⟨last, feeds, 1 + lines.count Token.lineFeed, longer,
        TokenStream.scanFrom evaluator
          (1 + lines.count Token.lineFeed +
            (TokenStream.leadingFeeds text).length)
          (TokenStream.pastFeeds text)⟩
    have shorterScan : TokenStream.scanFrom evaluator 1 lines =
        ⟨front ++ [ending.last, ending.endOfText], none⟩ := by
      rw [List.append_nil] at scan
      simp [scan, TokenStream.after, TokenStream.leadingFeeds,
        TokenStream.pastFeeds, TokenStream.scanFrom_nil, ending,
        Ending.last, Ending.endOfText]
    refine ⟨ending, ⟨.newline, 0, []⟩ :: front, ?_, rfl⟩
    rw [alone, alone, shorterScan, longerScan]
    constructor
    · exact List.forall_mem_cons.2 ⟨by decide, inside⟩
    · rfl
    · rfl
    · simp [afterNewline, Cursor.ahead, TokenStream.after, Ending.place,
        ending]
    · rfl

/-- A text after lines that have been parsed to their end. -/
theorem delivers_append_of_ended {further : List Item}
    {error : Option Error}
    (whole : lines = [] ∨ lines.getLast? = some Token.lineFeed)
    (delivered : Delivers (ofText evaluator width constants lines) items
      none)
    {text : Text}
    (later : Delivers
      (ofText (evaluator.map (Evaluator.shift (lines.count Token.lineFeed)))
        width constants text) further error) :
    Delivers (ofText evaluator width constants (lines ++ text))
      (items ++ further.map (Item.shift (lines.count Token.lineFeed)))
      (error.map (Error.shift (lines.count Token.lineFeed))) := by
  rcases whole with rfl | ends
  · rcases delivered.unique (delivers_empty evaluator) with ⟨rfl, -⟩
    simpa using later
  · unfold ofText at delivered ⊢
    rw [← delivers_afterNewline_iff 0 []] at delivered ⊢
    rcases faulty_or_before evaluator ends text with
      ⟨faulty, -⟩ | ⟨ending, front, before, more⟩
    · exact absurd delivered faulty.not_delivers
    · refine before.delivers delivered ?_
      show Delivers ⟨width, constants, ending.place, true⟩ _ _
      unfold Ending.place
      rw [delivers_afterNewline_iff, more, delivers_pastFeeds_iff,
        TokenStream.scanFrom_shift]
      exact later.shiftStream _

/-- A text after lines in which parsing fails. -/
theorem delivers_append_of_failed {error : Error}
    (whole : lines = [] ∨ lines.getLast? = some Token.lineFeed)
    (delivered : Delivers (ofText evaluator width constants lines) items
      (some error)) (text : Text) :
    Delivers (ofText evaluator width constants (lines ++ text)) items
      (some error) := by
  rcases whole with rfl | ends
  · cases (delivered.unique (delivers_empty evaluator)).2
  · unfold ofText at delivered ⊢
    rcases faulty_or_before evaluator ends text with
      ⟨-, same⟩ | ⟨ending, front, before, -⟩
    · rw [same]
      exact delivered
    · rw [← delivers_afterNewline_iff 0 []] at delivered ⊢
      rw [← List.append_nil items]
      exact before.delivers delivered ⟨rfl, rfl⟩

end

/--
Parsing is compositional in lines.

If the lines are parsed to their end, the statements of the text that
follows come after theirs.  If parsing them fails, the text that follows
makes no difference.
-/
theorem delivers_append_lines (evaluator : Option Evaluator)
    (width : Width) (constants : Table Int64) (lines text : Text)
    (whole : lines = [] ∨ lines.getLast? = some Token.lineFeed) :
    (∀ items, Delivers (ofText evaluator width constants lines) items none →
      ∃ further fault,
        Delivers
          (ofText
            (evaluator.map (Evaluator.shift (lines.count Token.lineFeed)))
            width constants text) further fault ∧
        Delivers (ofText evaluator width constants (lines ++ text))
          (items ++ further.map (Item.shift (lines.count Token.lineFeed)))
          (fault.map (Error.shift (lines.count Token.lineFeed)))) ∧
    ∀ items error,
      Delivers (ofText evaluator width constants lines) items
        (some error) →
      Delivers (ofText evaluator width constants (lines ++ text)) items
        (some error) := by
  constructor
  · intro items delivered
    have later := parse_delivers width constants
      (tokenize (evaluator.map
        (Evaluator.shift (lines.count Token.lineFeed))) text)
    exact ⟨_, _, later, delivers_append_of_ended whole delivered later⟩
  · intro items error delivered
    exact delivers_append_of_failed whole delivered text

/-- Each formula stands for the number of its line. -/
def lineNumber : Evaluator :=
  fun _ line => .ok (Int64.ofInt line)

def numberedLines : Text :=
  Text.ascii ".a\ndata $(n)\n"

def numberedText : Text :=
  Text.ascii "\n\ndata $(n) - a\nret ret\n"

/--
The line ends at the front of the text join the last one of the lines, and
the formula and the misplaced word keep their places.
-/
theorem delivers_numberedLines_append :
    (numberedLines = [] ∨ numberedLines.getLast? = some Token.lineFeed) ∧
      Delivers (ofText (some lineNumber) .byte ∅ numberedLines)
        [.label 1 (Text.ascii "a"), .instruction ⟨2, .data [.constant 2]⟩]
        none ∧
      Delivers
        (ofText (some lineNumber) .byte ∅ (numberedLines ++ numberedText))
        [.label 1 (Text.ascii "a"), .instruction ⟨2, .data [.constant 2]⟩,
          .instruction ⟨5, .data [(SymInt.constant 5).sub
            (.symbol (Text.ascii "a"))]⟩]
        (some (.malformed 6 (Text.ascii "ret") .tokenUnexpected)) := by
  have whole : numberedLines = [] ∨
      numberedLines.getLast? = some Token.lineFeed := by
    decide
  have linesParsed : parse .byte ∅
      (tokenize (some lineNumber) numberedLines) =
        ⟨[.label 1 (Text.ascii "a"),
          .instruction ⟨2, .data [.constant 2]⟩], none⟩ := by
    decide +kernel
  have textParsed : parse .byte ∅
      (tokenize (some (Evaluator.shift 2 lineNumber)) numberedText) =
        ⟨[.instruction ⟨3, .data [(SymInt.constant 5).sub
          (.symbol (Text.ascii "a"))]⟩],
          some (.malformed 4 (Text.ascii "ret") .tokenUnexpected)⟩ := by
    decide +kernel
  have lines := parse_delivers .byte ∅
    (tokenize (some lineNumber) numberedLines)
  have text := parse_delivers .byte ∅
    (tokenize (some (Evaluator.shift 2 lineNumber)) numberedText)
  rw [linesParsed] at lines
  rw [textParsed] at text
  rcases (delivers_append_lines (some lineNumber) .byte ∅ numberedLines
      numberedText whole).1 _ lines with
    ⟨further, fault, later, both⟩
  rcases later.unique text with ⟨rfl, rfl⟩
  exact ⟨whole, lines, both⟩

end Parser

end FlatAsm
