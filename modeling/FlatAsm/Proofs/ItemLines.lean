import FlatAsm.Proofs.ParserInvariants
import FlatAsm.Proofs.SourceSpans
import FlatAsm.Proofs.StatementGrammar

/-!
# Lines of tokens and of items

Every token and every error carries the line on which it stands.  So lines
never go down from token to token, and they go up after a line end.

Between two statements a parser moves past a line end, even if it has failed
or has been closed in the meantime.  Hence no two items are on one line.
-/

namespace FlatAsm

/-- The line that an error is about, if it is about one. -/
def Error.line? : Error → Option Int
  | .illegalCharacter line _ => some line
  | .malformed line _ _ => some line
  | .operand line _ _ => some line
  | .labelMissing line _ => some line
  | .predefine _ | .width _ | .unreadable _ | .bare _
  | .breakdown _ => none

/-- What a token has to do with one that comes later. -/
structure Token.Precedes (earlier later : Token) : Prop where
  inside : earlier.kind ≠ .endOfText
  line_le : earlier.line ≤ later.line
  line_lt : earlier.kind = .newline → earlier.line < later.line

theorem Token.IsRejected.line?_eq {evaluator : Option Evaluator}
    {line : Int} {text : Text} {fault : Error}
    (rejected : IsRejected evaluator line text fault) :
    fault.line? = some line := by
  cases rejected <;> rfl

/-- A line end ends at least one line. -/
theorem Token.IsLexeme.count_pos {evaluator : Option Evaluator}
    {line : Int} {after : Text} {token : Token}
    (lexeme : IsLexeme evaluator line after token)
    (newline : token.kind = .newline) :
    0 < token.spelling.count lineFeed := by
  cases lexeme with
  | @newline run isRun _ =>
      obtain ⟨first, rest, rfl, starts⟩ :=
        RunClass.exists_cons_of_isRun isRun
      rw [List.count_pos_iff, ← beq_iff_eq.1 starts]
      exact List.mem_cons_self
  | word _ _ classified => cases classified <;> cases newline
  | _ => cases newline

theorem Text.lineAt_mono (text : Text) {offset later : Nat}
    (order : offset ≤ later) : text.lineAt offset ≤ text.lineAt later := by
  have front : text.take offset <+: text.take later :=
    List.take_prefix_take_left order
  have counts := front.sublist.count_le Token.lineFeed
  rw [lineAt, lineAt]
  omega

namespace TokenStream

/-- Tokens and errors carry the lines of their places in the text. -/
structure IsNumbered (evaluator : Option Evaluator) (text : Text)
    (stream : TokenStream) : Prop where
  /-- Every token has its place, and stands there. -/
  places : (stream.placed text).map PlacedToken.token = stream.tokens
  stands : ∀ placed ∈ stream.placed text,
    placed.token.spelling <+: text.drop placed.start
  lines : ∀ placed ∈ stream.placed text,
    placed.token.line = text.lineAt placed.start
  fault : ∀ fault ∈ stream.fault,
    Token.IsRejected evaluator (text.lineAt (stream.reached text))
        (text.drop (stream.reached text)) fault ∧
      fault.line? = some (text.lineAt (stream.reached text))

namespace ReadFrom

variable {evaluator : Option Evaluator} {text : Text} {offset : Nat}
  {stream : TokenStream}

theorem isNumbered (read : ReadFrom evaluator text 0 stream) :
    stream.IsNumbered evaluator text := by
  constructor
  case places => exact map_token_placeFrom text 0 stream.tokens
  case stands =>
    intro placed member
    cases read.stands placed member with
    | ended => exact List.nil_prefix
    | lexeme spelled =>
        rw [spelled]
        exact List.prefix_append _ _
  case lines =>
    intro placed member
    cases read.stands placed member with
    | ended => rfl
    | lexeme _ lexeme => exact lexeme.line_eq
  case fault =>
    intro fault faulty
    have rejected := read.rejected faulty
    exact ⟨rejected, rejected.line?_eq⟩

theorem lineAt_le (read : ReadFrom evaluator text offset stream) :
    ∀ token ∈ stream.tokens, text.lineAt offset ≤ token.line := by
  induction read with
  | ended blank =>
      intro token member
      rw [List.mem_singleton.1 member, ← blank]
      exact text.lineAt_mono (text.le_afterBlanks _)
  | failed => exact nofun
  | @token offset placed stream starts _ lexeme _ inductionHypothesis =>
      have passed : offset ≤ placed.start :=
        starts ▸ text.le_afterBlanks offset
      refine List.forall_mem_cons.2 ⟨?_, fun token member => ?_⟩
      · rw [lexeme.line_eq]
        exact text.lineAt_mono passed
      · exact (text.lineAt_mono
          (passed.trans placed.start_le_stop)).trans
          (inductionHypothesis token member)

/-- Lines do not go down, and a line end is followed by further lines. -/
theorem precedes (read : ReadFrom evaluator text offset stream) :
    stream.tokens.Pairwise Token.Precedes := by
  induction read with
  | ended => exact List.pairwise_singleton _ _
  | failed => exact List.Pairwise.nil
  | @token offset placed stream _ spelled lexeme others
      inductionHypothesis =>
      refine List.pairwise_cons.2 ⟨?_, inductionHypothesis⟩
      intro later member
      have beyond := others.lineAt_le later member
      have lines : text.lineAt placed.stop = placed.token.line +
          placed.token.spelling.count Token.lineFeed := by
        rw [lexeme.line_eq]
        exact Text.lineAt_add spelled
      refine ⟨lexeme.kind_ne, by omega, ?_⟩
      intro newline
      have ends := lexeme.count_pos newline
      omega

end ReadFrom

end TokenStream

/-! ## Places of a parser -/

/--
What a place in a stream knows of the tokens.

Ahead there is a part of the tokens, or nothing but the end of the text, and
the tokens ahead are of a certain kind.
-/
structure Cursor.Within (tokens : List Token) (allowed : Token → Prop)
    (cursor : Cursor) : Prop where
  part : cursor.ahead <:+: tokens ∨
    cursor.current.kind = .endOfText ∧ cursor.upcoming = []
  allowed : ∀ token ∈ cursor.ahead, token.kind ≠ .endOfText →
    allowed token

namespace Cursor.Within

variable {tokens : List Token} {allowed more : Token → Prop}
  {cursor : Cursor}

/-- At the end of the text nothing is known. -/
theorem ofEnd (ended : cursor.current.kind = .endOfText)
    (last : cursor.upcoming = []) : cursor.Within tokens allowed := by
  refine ⟨.inr ⟨ended, last⟩, ?_⟩
  intro token member inside
  rw [ahead, last, List.mem_singleton] at member
  exact absurd (member ▸ ended) inside

theorem imp (within : cursor.Within tokens allowed)
    (implied : ∀ token ∈ cursor.ahead, token.kind ≠ .endOfText →
      allowed token → more token) :
    cursor.Within tokens more :=
  ⟨within.part, fun token member inside =>
    implied token member inside (within.allowed token member inside)⟩

theorem precedes (within : cursor.Within tokens allowed)
    (ordered : tokens.Pairwise Token.Precedes) :
    cursor.ahead.Pairwise Token.Precedes := by
  rcases within.part with part | ⟨-, last⟩
  · exact ordered.sublist part.sublist
  · rw [ahead, last]
    exact List.pairwise_singleton _ _

/-- Where a statement ends, all that follows is on later lines. -/
theorem beyond {line : Int}
    (within : cursor.Within tokens
      fun token => allowed token ∧ line ≤ token.line)
    (ordered : tokens.Pairwise Token.Precedes)
    (ends : cursor.current.endsStatement = true) :
    cursor.Within tokens fun token => allowed token ∧
      (token.endsStatement = false → line < token.line) := by
  refine within.imp ?_
  rintro token member _ ⟨known, _⟩
  refine ⟨known, fun inside => ?_⟩
  rcases List.mem_cons.1 member with rfl | later
  · cases inside.symm.trans ends
  · have precedes :=
      (List.pairwise_cons.1 (within.precedes ordered)).1 token later
    have newline := (Parse.endsStatement_iff.1 ends).resolve_right
      precedes.inside
    have above := (within.allowed cursor.current List.mem_cons_self
      precedes.inside).2
    exact above.trans_lt (precedes.line_lt newline)

end Cursor.Within

theorem Parse.advance_preserves_within (tokens : List Token)
    (allowed : Token → Prop) :
    Preserves (Cursor.Within tokens allowed) advance := by
  rintro ⟨current, upcoming, fault⟩ within
  cases upcoming with
  | cons token rest =>
      refine ⟨.inl ?_, ?_⟩
      · rcases within.part with part | ⟨-, ⟨⟩⟩
        exact (List.suffix_cons current (token :: rest)).isInfix.trans part
      · intro other member
        exact within.allowed other (List.mem_cons_of_mem current member)
  | nil =>
      cases fault with
      | some fault => exact ⟨within.part, within.allowed⟩
      | none => exact .ofEnd rfl rfl

/-! ## Requests to a parser -/

/-- What a parser can be asked for. -/
inductive Parser.Request where
  | next
  | close
  deriving DecidableEq, Repr

/-- How a statement is opened by its first token. -/
structure Item.OpenedBy (width : Width) (constants : Table Int64)
    (tokens : List Token) (token : Token) (item : Item) : Prop where
  opens : token.kind = .punctuation .dot ∨
    ∃ mnemonic, token.kind = .mnemonic mnemonic
  line : item.line = token.line
  /-- The token and some that follow it are what the item is made of. -/
  statement : ∃ others, token :: others <:+: tokens ∧
    Grammar.IsStatement width constants (token :: others) item

theorem Item.OpenedBy.inside {width : Width} {constants : Table Int64}
    {tokens : List Token} {token : Token} {item : Item}
    (opened : item.OpenedBy width constants tokens token) :
    token.endsStatement = false := by
  rcases opened.opens with kind | ⟨mnemonic, kind⟩ <;>
    simp [Token.endsStatement, kind]

/-- A statement starts with the token that gives it its line. -/
theorem Grammar.IsStatement.opening {width : Width}
    {constants : Table Int64} {token : Token} {others : List Token}
    {item : Item}
    (derived : IsStatement width constants (token :: others) item) :
    (token.kind = .punctuation .dot ∨
      ∃ mnemonic, token.kind = .mnemonic mnemonic) ∧
      item.line = token.line := by
  cases derived with
  | label marked => exact ⟨.inl marked, rfl⟩
  | instruction kind => exact ⟨.inr ⟨_, kind⟩, rfl⟩
  | repetition kind => exact ⟨.inr ⟨_, kind⟩, rfl⟩

/-- A statement that is parsed here extends to the end of the line. -/
theorem Parse.statementHere_line {width : Width} {constants : Table Int64}
    {cursor after : Cursor} {item : Item}
    (found : statementHere width constants cursor =
      .ok (some item) after) :
    after.current.endsStatement = true ∧ ∃ others,
      cursor.current :: others <+: cursor.ahead ∧
        Grammar.IsStatement width constants (cursor.current :: others)
          item := by
  obtain ⟨line, passed, derived, ends⟩ := statementHere_ok_iff.1 found
  have taken := passed.eq_takeWhile derived.inside ends
  obtain ⟨others, rfl⟩ : ∃ others, line = cursor.current :: others := by
    cases derived <;>
      exact ⟨_, by rw [(Cursor.Passes.cons_iff.1 passed).1]⟩
  refine ⟨ends, others, ?_, derived⟩
  rw [taken]
  exact List.takeWhile_prefix _

namespace Parser

/-- The items that a parser hands out in answer to some requests. -/
def items (parser : Parser) : List Request → List Item
  | [] => []
  | .close :: requests => parser.close.items requests
  | .next :: requests =>
      match parser.next with
      | (.ok (some item), after) => item :: after.items requests
      | (_, after) => after.items requests

/-- What a parser knows of the tokens it has still to read. -/
inductive Within (width : Width) (constants : Table Int64)
    (tokens : List Token) (allowed : Token → Prop) : Parser → Prop where
  | fresh {cursor : Cursor} (ended : cursor.current.kind = .endOfText)
      (part : cursor.upcoming <:+: tokens)
      (known : ∀ token ∈ cursor.upcoming, token.kind ≠ .endOfText →
        allowed token) :
      Within width constants tokens allowed
        ⟨width, constants, cursor, false⟩
  | started {cursor : Cursor} (within : cursor.Within tokens allowed) :
      Within width constants tokens allowed
        ⟨width, constants, cursor, true⟩

namespace Within

variable {width : Width} {constants : Table Int64} {tokens : List Token}
  {allowed : Token → Prop} {parser : Parser}
  (within : parser.Within width constants tokens allowed)

include within

theorem close : parser.close.Within width constants tokens allowed := by
  cases within with
  | fresh ended => exact .fresh ended List.nil_infix nofun
  | @started cursor within =>
      have first : cursor.close.ahead <+: cursor.ahead :=
        List.prefix_append [cursor.current] cursor.upcoming
      refine .started ⟨within.part.imp first.isInfix.trans ?_, ?_⟩
      · rintro ⟨ended, -⟩
        exact ⟨ended, rfl⟩
      · intro token member
        exact within.allowed token (first.subset member)

/-- Delivering the first token leads to a place within the tokens. -/
theorem start :
    match Parser.start parser.started parser.cursor with
    | .ok _ after => after.Within tokens allowed
    | .error _ after => after.Within tokens allowed := by
  cases within with
  | started within => exact within
  | @fresh cursor ended part known =>
      rcases cursor with ⟨current, upcoming, fault⟩
      cases upcoming with
      | cons token rest => exact ⟨.inl part, known⟩
      | nil =>
          cases fault with
          | none => exact .ofEnd rfl rfl
          | some fault => exact .ofEnd ended rfl

theorem settings : parser.width = width ∧ parser.constants = constants := by
  cases within <;> exact ⟨rfl, rfl⟩

/-- A request for a statement moves on within the tokens. -/
theorem next : parser.next.2.Within width constants tokens allowed := by
  obtain ⟨rfl, rfl⟩ := within.settings
  have first := within.start
  have statement := Parse.statement_preserves
    (Parse.advance_preserves_within tokens allowed) parser.constants
    parser.width
  unfold Parser.next
  dsimp only
  cases started : Parser.start parser.started parser.cursor with
  | error fault after =>
      rw [started] at first
      rw [Parse.bind_of_error started]
      exact .started first
  | ok _ middle =>
      rw [started] at first
      rw [Parse.bind_of_ok started]
      split
      · next found => exact .started (statement.ok found first)
      · next failed => exact .started (statement.error failed first)

/--
What a request for a statement gives, if it gives an item.

The item is opened by a token that is allowed, and what is left are the
tokens of later lines.
-/
theorem item (ordered : tokens.Pairwise Token.Precedes) {item : Item}
    (given : parser.next.1 = .ok (some item)) :
    (∃ token, allowed token ∧
      item.OpenedBy width constants tokens token) ∧
      parser.next.2.Within width constants tokens fun token =>
        allowed token ∧
          (token.endsStatement = false → item.line < token.line) := by
  obtain ⟨rfl, rfl⟩ := within.settings
  obtain ⟨after, found⟩ := exists_of_next given
  rw [next_of_statement found]
  obtain ⟨_, first, started, found⟩ := Parse.bind_ok_iff.1 found
  obtain ⟨_, here, skipped, found⟩ := Parse.bind_ok_iff.1 found
  have firstWithin := within.start
  rw [started] at firstWithin
  have hereWithin : here.Within tokens allowed :=
    (Parse.skipNewlines_preserves
      (Parse.advance_preserves_within tokens allowed)).ok skipped firstWithin
  obtain ⟨ends, others, whole, derived⟩ := Parse.statementHere_line found
  obtain ⟨opens, line⟩ := derived.opening
  have notEnd : here.current.kind ≠ .endOfText := by
    rcases opens with kind | ⟨mnemonic, kind⟩ <;> simp [kind]
  have part : here.current :: others <:+: tokens := by
    rcases hereWithin.part with part | ⟨ended, -⟩
    · exact whole.isInfix.trans part
    · exact absurd ended notEnd
  refine ⟨⟨here.current, hereWithin.allowed _ List.mem_cons_self notEnd,
    opens, line, others, part, derived⟩, .started ?_⟩
  -- from the opening token on, lines do not go down
  have fromHere : here.Within tokens
      fun token => allowed token ∧ item.line ≤ token.line := by
    refine hereWithin.imp ?_
    intro token member _ known
    refine ⟨known, ?_⟩
    rw [line]
    rcases List.mem_cons.1 member with rfl | later
    · exact Int.le_refl _
    · exact ((List.pairwise_cons.1 (hereWithin.precedes ordered)).1 token
        later).line_le
  have afterWithin := (Parse.statementHere_preserves
    (Parse.advance_preserves_within tokens _) _ _).ok found fromHere
  exact afterWithin.beyond ordered ends

/--
Over any requests, the items come from tokens that are allowed at the start,
and from one line after the other.
-/
theorem items (ordered : tokens.Pairwise Token.Precedes)
    (requests : List Request) :
    (∀ item ∈ parser.items requests, ∃ token, allowed token ∧
      item.OpenedBy width constants tokens token) ∧
      (parser.items requests).Pairwise
        fun earlier later => earlier.line < later.line := by
  induction requests generalizing parser allowed with
  | nil =>
      refine ⟨?_, List.Pairwise.nil⟩
      intro item member
      cases member
  | cons request requests inductionHypothesis =>
      cases request with
      | close => exact inductionHypothesis within.close
      | next =>
          unfold Parser.items
          split
          · next item after given =>
            have stepped := within.item ordered (by rw [given])
            rw [given] at stepped
            obtain ⟨opened, later⟩ := stepped
            obtain ⟨others, increasing⟩ := inductionHypothesis later
            refine ⟨List.forall_mem_cons.2 ⟨opened, ?_⟩,
              List.pairwise_cons.2 ⟨?_, increasing⟩⟩
            · intro other member
              obtain ⟨token, known, opening⟩ := others other member
              exact ⟨token, known.1, opening⟩
            · intro other member
              obtain ⟨token, known, opening⟩ := others other member
              rw [opening.line]
              exact known.2 opening.inside
          · next answer after given =>
            have stepped := within.next
            rw [given] at stepped
            exact inductionHypothesis stepped

end Within

/--
Tokens and errors carry the lines of their places.  Whatever is requested
from a parser of a text, and in whatever order, its items stand on ever later
lines, each on that of the dot or mnemonic it starts with.
-/
theorem ofText_lines (evaluator : Option Evaluator) (width : Width)
    (constants : Table Int64) (text : Text) (requests : List Request) :
    (tokenize evaluator text).IsNumbered evaluator text ∧
      (((ofText evaluator width constants text).items requests).Pairwise
        fun earlier later => earlier.line < later.line) ∧
      ∀ item ∈ (ofText evaluator width constants text).items requests,
        ∃ token, item.OpenedBy width constants
          (tokenize evaluator text).tokens token := by
  have read := TokenStream.readFrom_tokenize evaluator text
  have within : (ofText evaluator width constants text).Within width
      constants (tokenize evaluator text).tokens fun _ => True :=
    .fresh rfl List.infix_rfl fun _ _ _ => trivial
  obtain ⟨opened, increasing⟩ := within.items read.precedes requests
  refine ⟨read.isNumbered, increasing, ?_⟩
  intro item member
  obtain ⟨token, -, opening⟩ := opened item member
  exact ⟨token, opening⟩

end Parser

end FlatAsm
