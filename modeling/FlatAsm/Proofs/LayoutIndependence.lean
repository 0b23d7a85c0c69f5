import FlatAsm.Proofs.LineComposition
import FlatAsm.Proofs.TokenLayout
import FlatAsm.Proofs.TokenValues

/-!
# Layout and letter case do not matter

Statements are built from what tokens stand for.  How a register or a
mnemonic is spelled takes no part in it, so a line that is a statement stays
one if its keywords are spelled in another way.  With the tokens of a text
that has been rewritten, this gives the same items.
-/

namespace FlatAsm

/-! ## Tokens of the same sense -/

/-- The tokens are the same, except for the spelling of a keyword. -/
structure Token.SameSense (token other : Token) : Prop where
  kind : other.kind = token.kind
  line : other.line = token.line
  text : token.isKeyword = false → other.text = token.text

theorem Token.SameSense.endsStatement_eq {token other : Token}
    (same : token.SameSense other) :
    other.endsStatement = token.endsStatement := by
  rw [Token.endsStatement, Token.endsStatement, same.kind]

theorem PlacedToken.sameSense_respelled (recased : Text)
    (placed : PlacedToken) :
    placed.token.SameSense (placed.respelled recased) := by
  rw [respelled]
  split
  · next keyword => exact ⟨rfl, rfl, fun other => by simp [keyword] at other⟩
  · exact ⟨rfl, rfl, fun _ => rfl⟩

/-- Lists of tokens that have the same sense one by one. -/
abbrev SameSenses : List Token → List Token → Prop :=
  List.Forall₂ Token.SameSense

theorem Token.SameSense.sameMeaning {token other : Token}
    (same : token.SameSense other) (constants : Table Int64) :
    Token.SameMeaning constants constants token other where
  line := same.line
  value := by
    rw [Parse.partValue?, Parse.partValue?, same.kind]
    cases kind : token.kind
    case identifier => rw [same.text (by simp [Token.isKeyword, kind])]
    all_goals rfl
  kind _ := same.kind
  text kind := same.text (by simp [Token.isKeyword, kind])

/-! ## Statements of the same sense -/

namespace Grammar

variable {constants : Table Int64} {tokens others : List Token}

/-- A statement says the same in any spelling of its keywords. -/
theorem IsStatement.of_sameSenses {default : Width} {item : Item}
    (statement : IsStatement default constants tokens item)
    (same : SameSenses tokens others) :
    IsStatement default constants others item := by
  cases item with
  | label line name =>
      cases statement with
      | label marked named =>
          rcases same with _ | ⟨dot, _ | ⟨name, _ | _⟩⟩
          rw [← dot.line, ← name.text (by simp [Token.isKeyword, named])]
          exact .label (dot.kind.trans marked) (name.kind.trans named)
  | instruction content =>
      exact statement.of_sameMeanings
        (same.imp fun _ _ sense => sense.sameMeaning constants)

end Grammar

/-! ## Parsing tokens of the same sense -/

/-- What is ahead has the same sense at both places, and has no error. -/
structure Cursor.SameSense (cursor other : Cursor) : Prop where
  ahead : SameSenses cursor.ahead other.ahead
  faultless : cursor.fault = none
  otherFaultless : other.fault = none

namespace Cursor.SameSense

variable {cursor other after : Cursor}

theorem current (same : cursor.SameSense other) :
    cursor.current.SameSense other.current := by
  cases same.ahead
  assumption

theorem advance (same : cursor.SameSense other)
    (moved : Parse.advance cursor = .ok () after) :
    ∃ otherAfter, Parse.advance other = .ok () otherAfter ∧
      after.SameSense otherAfter := by
  rcases cursor with ⟨current, upcoming, _⟩
  rcases other with ⟨current', upcoming', _⟩
  obtain ⟨ahead, rfl, rfl⟩ := same
  rcases ahead with _ | ⟨first, _ | ⟨second, later⟩⟩
  · cases moved
    exact ⟨_, rfl, .cons ⟨rfl, first.line, fun _ => rfl⟩ .nil, rfl, rfl⟩
  · cases moved
    exact ⟨_, rfl, .cons second later, rfl, rfl⟩

theorem passes {tokens : List Token} (same : cursor.SameSense other)
    (passed : Passes cursor tokens after) :
    ∃ others otherAfter, Passes other others otherAfter ∧
      SameSenses tokens others ∧ after.SameSense otherAfter := by
  induction passed generalizing other with
  | here => exact ⟨[], other, .here, .nil, same⟩
  | move moved _ inductionHypothesis =>
      obtain ⟨middle, otherMoved, later⟩ := same.advance moved
      obtain ⟨others, otherAfter, passed, senses, ends⟩ :=
        inductionHypothesis later
      exact ⟨_, otherAfter, .move otherMoved passed,
        .cons same.current senses, ends⟩

theorem skipNewlines (same : cursor.SameSense other)
    (skipped : Parse.skipNewlines cursor = .ok () after) :
    ∃ otherAfter, Parse.skipNewlines other = .ok () otherAfter ∧
      after.SameSense otherAfter := by
  fun_induction Parse.skipNewlines cursor generalizing other with
  | case1 => cases skipped
  | case2 cursor newline _ middle moved inductionHypothesis =>
      obtain ⟨otherMiddle, otherMoved, later⟩ := same.advance moved
      obtain ⟨otherAfter, otherSkipped, ends⟩ :=
        inductionHypothesis later skipped
      have otherNewline := same.current.kind.trans newline
      rw [Parse.skipNewlines_of_newline otherNewline otherMoved]
      exact ⟨otherAfter, otherSkipped, ends⟩
  | case3 cursor inside =>
      cases skipped
      refine ⟨other, ?_, same⟩
      rw [Parse.skipNewlines_eq, Parse.current_bind, same.current.kind,
        if_neg inside]
      rfl

theorem statement {width : Width} {constants : Table Int64}
    {found : Option Item} (same : cursor.SameSense other)
    (parsed : Parse.statement width constants cursor = .ok found after) :
    ∃ otherAfter,
      Parse.statement width constants other = .ok found otherAfter ∧
        after.SameSense otherAfter := by
  obtain ⟨_, start, skipped, here⟩ := Parse.bind_ok_iff.1 parsed
  obtain ⟨otherStart, otherSkipped, line⟩ := same.skipNewlines skipped
  rw [Parse.statement_of_skipNewlines width constants otherSkipped]
  cases found with
  | none =>
      obtain ⟨ended, rfl⟩ := Parse.statementHere_eq_none_iff.1 here
      exact ⟨otherStart, Parse.statementHere_eq_none_iff.2
        ⟨line.current.kind.trans ended, rfl⟩, line⟩
  | some item =>
      obtain ⟨tokens, passed, derived, ends⟩ :=
        Parse.statementHere_ok_iff.1 here
      obtain ⟨others, otherAfter, otherPassed, senses, later⟩ :=
        line.passes passed
      refine ⟨otherAfter, Parse.statementHere_ok_iff.2 ⟨others, otherPassed,
        derived.of_sameSenses senses, ?_⟩, later⟩
      rw [later.current.endsStatement_eq, ends]

/-- Tokens of the same sense are parsed as the same items. -/
theorem delivers {width : Width} {constants : Table Int64}
    {items : List Item} (same : cursor.SameSense other)
    (delivered : Parser.Delivers ⟨width, constants, cursor, true⟩ items
      none) :
    Parser.Delivers ⟨width, constants, other, true⟩ items none := by
  induction items generalizing cursor other with
  | nil =>
      rw [Parser.delivers_started_iff] at delivered ⊢
      split at delivered
      · cases delivered.2
      · next parsed =>
        obtain ⟨otherAfter, otherParsed, -⟩ := same.statement parsed
        rw [otherParsed]
        exact delivered
      · obtain ⟨_, more, -⟩ := delivered
        cases more
  | cons item items inductionHypothesis =>
      rw [Parser.delivers_started_iff] at delivered ⊢
      split at delivered
      · cases delivered.2
      · cases delivered.1
      · next parsed =>
        obtain ⟨others, more, later⟩ := delivered
        cases more
        obtain ⟨otherAfter, otherParsed, rest⟩ := same.statement parsed
        rw [otherParsed]
        exact ⟨items, rfl, inductionHypothesis rest later⟩

end Cursor.SameSense

namespace Parser

variable {evaluator : Option Evaluator} {width : Width}
  {constants : Table Int64} {text : Text} {items : List Item}

/-- A text that is parsed to its end has been read to its end. -/
theorem faultless_of_delivers
    (delivered : Delivers (ofText evaluator width constants text) items
      none) : (tokenize evaluator text).fault = none := by
  have ends := (TokenStream.readFrom_tokenize evaluator text).endsOnce
  unfold ofText at delivered
  rw [← delivers_afterNewline_iff 0 []] at delivered
  generalize tokenize evaluator text = stream at ends delivered ⊢
  cases ends with
  | ended => rfl
  | failed inside =>
      refine absurd delivered (Faulty.not_delivers ⟨nofun, ?_⟩)
      exact List.forall_mem_cons.2 ⟨nofun, inside⟩

/-- The spelling of keywords makes no difference to what is parsed. -/
theorem delivers_respelled {stream : TokenStream}
    (faultless : stream.fault = none)
    (delivered : Delivers (ofStream width constants stream) items none)
    (recased : Text) :
    Delivers (ofStream width constants (stream.respelled text recased))
      items none := by
  rw [← delivers_afterNewline_iff 0 []] at delivered ⊢
  refine Cursor.SameSense.delivers ⟨?_, faultless, faultless⟩ delivered
  refine .cons ⟨rfl, rfl, fun _ => rfl⟩ ?_
  nth_rewrite 1 [← TokenStream.map_token_placeFrom text 0 stream.tokens]
  rw [TokenStream.respelled, List.forall₂_map_left_iff,
    List.forall₂_map_right_iff, TokenStream.placed, List.forall₂_same]
  intro placed _
  exact placed.sameSense_respelled recased

/--
Layout and letter case do not matter.

A text that can be read gives the same tokens with more blanks around them.
If keywords are written in another case as well, then their spelling is all
that changes in the tokens.  So a text that can be parsed gives the same
items after it has been rewritten.
-/
theorem rewriting_immaterial {recased : Text} {insertion : Nat → Text}
    (rewriting : TokenStream.Rewriting
      ((tokenize evaluator text).placed text) text insertion recased) :
    ((tokenize evaluator text).fault = none →
      tokenize evaluator (text.spaced insertion) =
          tokenize evaluator text ∧
        tokenize evaluator (recased.spaced insertion) =
          (tokenize evaluator text).respelled text recased) ∧
    ∀ width constants items,
      Delivers (ofText evaluator width constants text) items none →
        Delivers
          (ofText evaluator width constants (recased.spaced insertion))
          items none := by
  constructor
  · intro faultless
    exact ⟨TokenStream.tokenize_spaced_self rewriting faultless,
      TokenStream.tokenize_spaced rewriting faultless⟩
  · intro width constants items delivered
    have faultless := faultless_of_delivers delivered
    unfold ofText
    rw [TokenStream.tokenize_spaced rewriting faultless]
    exact delivers_respelled faultless delivered recased

/-- A text without more blanks than it needs. -/
def denseText : Text :=
  Text.ascii "mov [eax:-1],ebx\ndata \"a b\",'x'"

/-- The text with some of its keywords in another case. -/
def mixedCaseText : Text :=
  Text.ascii "MoV [EAX:-1],eBx\nDATA \"a b\",'x'"

/-- Blanks before, between and after tokens. -/
def scatteredBlanks (offset : Nat) : Text :=
  if offset ∈ [0, 5, 8, 16, 17, 27, 31] then Text.ascii " \t\r" else []

def denseItems : List Item :=
  [.instruction ⟨1, .reversible ⟨⟨4⟩, ⟨5⟩⟩ .word
      (some (.indirectDisplacement ⟨0, .word⟩ (SymInt.constant 1).neg))
      ⟨1, .word⟩ false⟩,
    .instruction ⟨2, .data [.constant 0x61, .constant 0x20, .constant 0x62,
      .constant 0x78]⟩]

/-- Blanks within the string stay, and those around tokens are passed. -/
theorem denseText_immaterial :
    TokenStream.Rewriting ((tokenize none denseText).placed denseText)
        denseText scatteredBlanks mixedCaseText ∧
      Delivers (ofText none .byte ∅ denseText) denseItems none ∧
      Delivers
        (ofText none .byte ∅ (mixedCaseText.spaced scatteredBlanks))
        denseItems none := by
  have blank : ∀ offset, ∀ byte ∈ scatteredBlanks offset,
      Token.isBlank byte = true := by
    intro offset
    unfold scatteredBlanks
    split <;> decide +kernel
  have boundary : ∀ placed ∈ (tokenize none denseText).placed denseText,
      ∀ offset < placed.stop, placed.start < offset →
        scatteredBlanks offset = [] := by
    decide +kernel
  have others : ∀ placed ∈ (tokenize none denseText).placed denseText,
      placed.token.isKeyword = false →
        mixedCaseText.extract placed.start placed.stop =
          denseText.extract placed.start placed.stop := by
    decide +kernel
  have rewriting : TokenStream.Rewriting
      ((tokenize none denseText).placed denseText) denseText
      scatteredBlanks mixedCaseText :=
    ⟨blank, fun placed member offset above below =>
      boundary placed member offset below above, by decide +kernel,
      others⟩
  have parsed : parse .byte ∅ (tokenize none denseText) =
      ⟨denseItems, none⟩ := by
    decide +kernel
  have delivered := parse_delivers .byte ∅ (tokenize none denseText)
  rw [parsed] at delivered
  exact ⟨rewriting, delivered,
    (rewriting_immaterial rewriting).2 .byte ∅ denseItems delivered⟩

end Parser

end FlatAsm
