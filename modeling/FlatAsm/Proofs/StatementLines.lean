import FlatAsm.Proofs.LineAnswers
import FlatAsm.Proofs.SourceSpans

/-!
# Statements and their lines

A text is parsed line by line: the items that a parser delivers are, one
after the other, what the lines with tokens on them say.  If there is an
error, this holds of the lines before it.
-/

namespace FlatAsm

open Cursor (Passes)
open Grammar (Inside IsStatement)

/-! ## Lines -/

/-- The tokens of each line on which there are any. -/
def statementLines (tokens : List Token) : List (List Token) :=
  (tokens.splitOnP Token.endsStatement).filter fun line => line != []

section

variable {line rest : List Token} {last : Token}

/-- Line ends in front of a line are not part of it. -/
theorem statementLines_cons (ends : last.endsStatement = true) :
    statementLines (last :: rest) = statementLines rest := by
  have split : (last :: rest).splitOnP Token.endsStatement =
      [] :: rest.splitOnP Token.endsStatement :=
    @List.splitOnP_append_cons_of_forall_mem _ _ [] (by simp) last ends rest
  rw [statementLines, split]
  rfl

theorem statementLines_append (nonempty : line ≠ [])
    (inside : ∀ token ∈ line, Inside token)
    (ends : last.endsStatement = true) :
    statementLines (line ++ last :: rest) =
      line :: statementLines (last :: rest) := by
  rw [statementLines_cons ends, statementLines,
    List.splitOnP_append_cons_of_forall_mem inside last ends,
    List.filter_cons_of_pos (by simpa using nonempty), statementLines]

end

/-! ## Moving on -/

/-- The end of the text is ahead, once and last, or else an error is. -/
structure Cursor.Closed (cursor : Cursor) : Prop where
  inside : ∀ token ∈ cursor.ahead.dropLast, token.kind ≠ .endOfText
  ending : ∀ token ∈ cursor.ahead.getLast?,
    token.kind = .endOfText ↔ cursor.fault = none

namespace Cursor.Closed

variable {cursor after : Cursor} {tokens : List Token}

theorem advance (closed : cursor.Closed)
    (moved : Parse.advance cursor = .ok () after)
    (more : cursor.current.kind ≠ .endOfText) :
    cursor.ahead = cursor.current :: after.ahead ∧ after.Closed := by
  rcases cursor with ⟨current, _ | ⟨token, rest⟩, fault⟩
  · cases fault with
    | some fault => cases moved
    | none =>
        exact absurd ((closed.ending current rfl).2 rfl) more
  · cases moved
    refine ⟨rfl, fun other member => ?_, closed.ending⟩
    exact closed.inside other (List.mem_cons_of_mem current member)

/-- Tokens that are moved past are those ahead. -/
theorem passes (closed : cursor.Closed)
    (passed : Passes cursor tokens after)
    (more : ∀ token ∈ tokens, token.kind ≠ .endOfText) :
    cursor.ahead = tokens ++ after.ahead ∧ after.Closed := by
  induction passed with
  | here => exact ⟨rfl, closed⟩
  | move moved _ inductionHypothesis =>
      obtain ⟨here, later⟩ := List.forall_mem_cons.1 more
      obtain ⟨first, closed⟩ := closed.advance moved here
      obtain ⟨rest, closed⟩ := inductionHypothesis closed later
      exact ⟨by rw [first, rest]; rfl, closed⟩

/-- Line ends that are moved past make no line. -/
theorem skipNewlines (closed : cursor.Closed)
    (skipped : Parse.skipNewlines cursor = .ok () after) :
    statementLines cursor.ahead = statementLines after.ahead ∧
      after.Closed := by
  fun_induction Parse.skipNewlines cursor with
  | case1 => cases skipped
  | case2 cursor newline _ middle moved inductionHypothesis =>
      obtain ⟨first, later⟩ :=
        closed.advance moved (by simp [newline])
      have ends : cursor.current.endsStatement = true := by
        simp [Token.endsStatement, newline]
      rw [first, statementLines_cons ends]
      exact inductionHypothesis later skipped
  | case3 =>
      cases skipped
      exact ⟨rfl, closed⟩

/-- At the end of the text there are no more lines. -/
theorem ahead_eq (closed : cursor.Closed)
    (ended : cursor.current.kind = .endOfText) :
    cursor.ahead = [cursor.current] := by
  rcases cursor with ⟨current, _ | ⟨token, rest⟩, fault⟩
  · rfl
  · exact absurd ended (closed.inside current List.mem_cons_self)

end Cursor.Closed

/-- Without an error there is at least the end of the text. -/
theorem TokenStream.EndsOnce.tokens_ne_nil {stream : TokenStream}
    (ends : stream.EndsOnce) (faultless : stream.fault = none) :
    stream.tokens ≠ [] := by
  cases ends with
  | ended => simp
  | failed => cases faultless

theorem Cursor.closed_of_endsOnce {first : Token} {rest : List Token}
    {fault : Option Error}
    (ends : TokenStream.EndsOnce ⟨first :: rest, fault⟩) :
    (⟨first, rest, fault⟩ : Cursor).Closed := by
  generalize tokens : first :: rest = ahead at ends
  have same : (⟨first, rest, fault⟩ : Cursor).ahead = ahead := tokens
  constructor
  · rw [same]
    cases ends with
    | ended inside => simpa using inside
    | failed inside =>
        exact fun token member =>
          inside token ((List.dropLast_subset _) member)
  · rw [same]
    cases ends with
    | ended inside final => simp [final]
    | failed inside =>
        intro token last
        simp [inside token (List.mem_of_mem_getLast? last)]

/-! ## Items and lines -/

namespace Parse

variable {width : Width} {constants : Table Int64} {cursor after : Cursor}

/-- A statement is the next line. -/
theorem statement_line {item : Item} (closed : cursor.Closed)
    (found : statement width constants cursor = .ok (some item) after) :
    ∃ line, statementLines cursor.ahead =
        line :: statementLines after.ahead ∧
      IsStatement width constants line item ∧ after.Closed := by
  obtain ⟨_, here, skipped, found⟩ := bind_ok_iff.1 found
  obtain ⟨line, passed, derived, ends⟩ := statementHere_ok_iff.1 found
  obtain ⟨same, closed⟩ := closed.skipNewlines skipped
  have inside := derived.inside
  obtain ⟨ahead, closed⟩ := closed.passes passed fun token member ended => by
    have within := inside token member
    simp [Inside, Token.endsStatement, ended] at within
  have nonempty : line ≠ [] := by
    rintro rfl
    cases derived
  refine ⟨line, ?_, derived, closed⟩
  rw [same, ahead, Cursor.ahead,
    statementLines_append nonempty inside ends]

theorem statement_none (closed : cursor.Closed)
    (found : statement width constants cursor = .ok none after) :
    statementLines cursor.ahead = [] := by
  obtain ⟨_, here, skipped, found⟩ := bind_ok_iff.1 found
  obtain ⟨ended, -⟩ := statementHere_eq_none_iff.1 found
  obtain ⟨same, closed⟩ := closed.skipNewlines skipped
  have ends : here.current.endsStatement = true := by
    simp [Token.endsStatement, ended]
  rw [same, closed.ahead_eq ended, statementLines_cons ends]
  rfl

end Parse

namespace Parser

variable {width : Width} {constants : Table Int64} {items : List Item}
  {fault : Option Error}

/-- The items are what the first lines say, or what all lines say. -/
structure ReadsLines (width : Width) (constants : Table Int64)
    (lines : List (List Token)) (items : List Item)
    (fault : Option Error) : Prop where
  each : List.Forall₂ (IsStatement width constants)
    (lines.take items.length) items
  all : fault = none → lines.length = items.length

/-- If there is no error, then there is an item for each line. -/
theorem ReadsLines.exists_item {lines : List (List Token)}
    (reads : ReadsLines width constants lines items none) :
    ∀ line ∈ lines, ∃ item ∈ items,
      IsStatement width constants line item := by
  intro line member
  obtain ⟨length, each⟩ := List.forall₂_iff_get.1 reads.each
  obtain ⟨index, inLines, rfl⟩ := List.getElem_of_mem member
  have all := reads.all rfl
  have inItems : index < items.length := all ▸ inLines
  refine ⟨items[index], List.getElem_mem inItems, ?_⟩
  have statement := each index (by rw [length]; exact inItems) inItems
  simpa using statement

theorem Delivers.readsLines {parser : Parser}
    (delivered : Delivers parser items fault)
    (started : parser.started = true) (closed : parser.cursor.Closed) :
    ReadsLines parser.width parser.constants
      (statementLines parser.cursor.ahead) items fault := by
  induction delivered with
  | ended done =>
      obtain ⟨after, found⟩ := exists_of_next done
      rw [started] at found
      rw [Parse.statement_none closed found]
      exact ⟨.nil, fun _ => rfl⟩
  | failed failure => exact ⟨.nil, nofun⟩
  | @item parser item items fault given _ inductionHypothesis =>
      obtain ⟨after, found⟩ := exists_of_next given
      rw [next_of_statement found] at inductionHypothesis
      rw [started] at found
      obtain ⟨line, split, statement, closed⟩ :=
        Parse.statement_line closed found
      have later := inductionHypothesis rfl closed
      rw [split]
      refine ⟨.cons statement later.each, fun faultless => ?_⟩
      exact congrArg Nat.succ (later.all faultless)

/-- The items of a text are what its lines say. -/
theorem Delivers.ofText_readsLines {evaluator : Option Evaluator}
    {text : Text}
    (delivered :
      Delivers (ofText evaluator width constants text) items fault) :
    ReadsLines width constants
      (statementLines (tokenize evaluator text).tokens) items fault := by
  have ends := (TokenStream.readFrom_tokenize evaluator text).endsOnce
  unfold ofText at delivered
  generalize tokenize evaluator text = stream at ends delivered ⊢
  rcases stream with ⟨_ | ⟨first, rest⟩, error⟩
  · cases error with
    | none => exact absurd rfl (ends.tokens_ne_nil rfl)
    | some error =>
        obtain ⟨rfl, rfl⟩ := delivered.unique (.failed rfl)
        exact ⟨.nil, nofun⟩
  · rw [delivers_ofStream_cons_iff] at delivered
    exact delivered.readsLines rfl (Cursor.closed_of_endsOnce ends)

end Parser

end FlatAsm
