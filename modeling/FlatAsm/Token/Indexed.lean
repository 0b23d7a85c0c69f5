import FlatAsm.Proofs.Outcomes
import FlatAsm.Token.Scan

/-!
# Reading tokens by position

A text that is kept in one piece is read by positions in it: a byte is taken
at a position, and a stretch of the text between two of them.  Where the text
does not reach that far, the access breaks off.

The tokens of a text are read here with nothing but a position to say how far
reading has come.  Some positions are passed one at a time, some are found by
a search, and a backslash in a literal jumps over a byte that may not be there.
-/

namespace FlatAsm

namespace Text

/-- The byte at a position. -/
def byteAt (text : Text) (position : Nat) : Except Breakdown UInt8 :=
  match text[position]? with
  | some byte => .ok byte
  | none => .error .indexBounds

/-- The bytes from one position up to another one. -/
def between (text : Text) (start stop : Nat) : Except Breakdown Text :=
  if start ≤ stop ∧ stop ≤ text.length then .ok (text.extract start stop)
  else .error .sliceBounds

end Text

namespace Indexed

/-- Reading that can break off at any access. -/
abbrev Reading (α : Type) := Except Breakdown α

/-- A token and the position after it. -/
abbrev Placed := Token × Nat

/-! ## Searching -/

/-- The first position from a given one on that has no byte of some kind. -/
def passWhile (member : UInt8 → Bool) (text : Text) (position : Nat) :
    Reading Nat := do
  if _inside : position < text.length then
    if member (← text.byteAt position) then
      passWhile member text (position + 1)
    else return position
  else return position
termination_by text.length - position

/-- Where the line of a position ends. -/
def lineEnd (text : Text) (position : Nat) : Reading Nat := do
  match (← text.between position text.length).idxOf? Token.lineFeed with
  | none => return text.length
  | some distance => return position + distance

/-- The position of the quote that closes a literal, from a position in it
on. -/
def closingQuote (quote : UInt8) (text : Text) (position : Nat) :
    Reading (Option Nat) := do
  if _inside : position < text.length then
    let byte ← text.byteAt position
    if byte = 0x5c then closingQuote quote text (position + 2)
    else if byte = quote then return some position
    else closingQuote quote text (position + 1)
  else return none
termination_by text.length - position

/-- The position of the quote that closes the literal opened at a position. -/
def skipQuoted (text : Text) (position : Nat) : Reading (Option Nat) := do
  closingQuote (← text.byteAt position) text (position + 1)

theorem le_of_closingQuote {quote : UInt8} {text : Text}
    {position found : Nat}
    (result : closingQuote quote text position = .ok (some found)) :
    position ≤ found := by
  fun_induction closingQuote quote text position with
  | case1 position inside jumped passed =>
      obtain ⟨byte, -, result⟩ := bind_eq_ok_iff.1 result
      split at result
      · exact Nat.le_of_add_right_le (jumped result)
      split at result
      · cases result
        exact Nat.le_refl _
      · exact Nat.le_of_succ_le (passed result)
  | case2 => cases result

theorem lt_of_skipQuoted {text : Text} {position found : Nat}
    (result : skipQuoted text position = .ok (some found)) :
    position < found := by
  obtain ⟨quote, -, result⟩ := bind_eq_ok_iff.1 result
  exact le_of_closingQuote result

/-- The number of open parentheses after a byte outside all literals. -/
def depthAfter (byte : UInt8) (depth : Int) : Int :=
  if byte = 0x28 then depth + 1
  else if byte = 0x29 then depth - 1
  else depth

/--
Pass what stands in parentheses, up to where none of them is open any more.

What is found is the number of parentheses still open, and the position after
the last of them where none is.  Nothing is found where a literal stays open.
-/
def passParentheses (text : Text) (stop : Nat) (depth : Int)
    (reached position : Nat) : Reading (Option (Int × Nat)) :=
  if _inside : position < stop then
    match text.byteAt position with
    | .error reason => .error reason
    | .ok byte =>
        let depth := depthAfter byte depth
        if byte = 0x22 ∨ byte = 0x27 then
          match _closed : text.between 0 stop >>= (skipQuoted · position) with
          | .error reason => .error reason
          | .ok none => .ok none
          | .ok (some last) =>
              if depth = 0 then .ok (some (depth, last + 1))
              else passParentheses text stop depth reached (last + 1)
        else if depth = 0 then .ok (some (depth, position + 1))
        else passParentheses text stop depth reached (position + 1)
  else .ok (some (depth, reached))
termination_by stop - position
decreasing_by
  · obtain ⟨line, -, closed⟩ := bind_eq_ok_iff.1 _closed
    have further := lt_of_skipQuoted closed
    omega
  · omega

/-! ## Tokens -/

section

variable (text : Text) (line : Int) (start : Nat)

/-- Complain about the character at a position. -/
def illegalAt : Reading (Except Error Placed) := do
  let rest ← text.between start text.length
  return .error
    (.illegalCharacter line (Text.firstCharacter rest).code)

/-- A token that consists of the longest run of certain bytes. -/
def runAt (kind : Text → Token.Kind) (member : UInt8 → Bool) :
    Reading (Except Error Placed) := do
  let stop ← passWhile member text start
  let run ← text.between start stop
  return .ok (⟨kind run, line, run⟩, stop)

/-- A decimal number. -/
def numberAt : Reading (Except Error Placed) := do
  let stop ← passWhile Text.isDigit text start
  let digits ← text.between start stop
  match Text.decimalBelow? 0x8000000000000000 digits with
  | none => return .error (.malformed line digits .numberRange)
  | some value =>
      return .ok (⟨.integer (Int64.ofNat value), line, digits⟩, stop)

/-- The number of a character between single quotes. -/
def characterAt : Reading (Except Error Placed) := do
  let rest ← text.between (start + 1) text.length
  let character := Text.firstCharacter rest
  let stop := start + 1 + character.size
  if character.size = 0 ∨ character.code = Token.lineFeed.toNat ∨
      text.length ≤ stop then
    illegalAt text line start
  else
    let closing ← text.byteAt stop
    if closing = 0x27 then
      let spelling ← text.between start (stop + 1)
      return .ok (⟨.integer (Int64.ofNat character.code), line, spelling⟩,
        stop + 1)
    else illegalAt text line start

/-- A string up to the next double quote on the line. -/
def stringAt : Reading (Except Error Placed) := do
  let inside ← text.between (start + 1) (← lineEnd text start)
  match inside.idxOf? 0x22 with
  | none => illegalAt text line start
  | some distance =>
      let stop := start + 1 + distance + 1
      let content ← text.between (start + 1) (stop - 1)
      return .ok (⟨.string, line, content⟩, stop)

/-- A punctuation mark. -/
def markAt (mark : Mark) : Reading (Except Error Placed) := do
  let spelling ← text.between start (start + 1)
  return .ok (⟨.punctuation mark, line, spelling⟩, start + 1)

/-- The value of a formula. -/
def formulaAt (evaluate : Evaluator) : Reading (Except Error Placed) := do
  let stop ← lineEnd text start
  match ← passParentheses text stop 0 start (start + 1) with
  | none => illegalAt text line start
  | some (depth, stop) =>
      if depth = 0 then
        let spelling ← text.between start stop
        let formula ← spelling.between 2 (spelling.length - 1)
        match evaluate formula line with
        | .error cause => return .error (.malformed line spelling cause)
        | .ok value => return .ok (⟨.integer value, line, spelling⟩, stop)
      else illegalAt text line start

/-- What stands at a position that has no blank. -/
def tokenAt (evaluator : Option Evaluator) :
    Reading (Except Error Placed) := do
  let first ← text.byteAt start
  if first = Token.lineFeed then
    runAt text line start (fun _ => .newline) (· == Token.lineFeed)
  else if Text.isDigit first then numberAt text line start
  else if first = 0x27 then characterAt text line start
  else if first = 0x22 then stringAt text line start
  else if Token.isWordStart first then
    runAt text line start Token.wordKind Token.isWordByte
  else
    match Mark.ofByte? first with
    | some mark => markAt text line start mark
    | none =>
        match evaluator, first with
        | some evaluate, 0x24 => do
            let rest ← text.between start text.length
            if [0x24, 0x28].isPrefixOf rest then
              formulaAt text line start evaluate
            else illegalAt text line start
        | _, _ => illegalAt text line start

end

/-- The next token, from a position on. -/
def next (evaluator : Option Evaluator) (text : Text) (line : Int)
    (position : Nat) : Reading (Except Error Placed) := do
  let start ← passWhile Token.isBlank text position
  if text.length ≤ start then return .ok (⟨.endOfText, line, []⟩, start)
  else tokenAt text line start evaluator

/-! ## Progress -/

section

variable {text : Text} {line : Int} {start stop : Nat} {token : Token}

theorem le_of_passWhile {member : UInt8 → Bool} {position : Nat}
    (result : passWhile member text position = .ok stop) :
    position ≤ stop := by
  fun_induction passWhile member text position with
  | case1 position inside inductionHypothesis =>
      obtain ⟨byte, -, result⟩ := bind_eq_ok_iff.1 result
      split at result
      · exact Nat.le_of_succ_le (inductionHypothesis result)
      · cases result
        exact Nat.le_refl _
  | case2 =>
      cases result
      exact Nat.le_refl _

theorem lt_length_of_byteAt {byte : UInt8} {position : Nat}
    (result : text.byteAt position = .ok byte) :
    position < text.length := by
  unfold Text.byteAt at result
  split at result
  · next found => exact (List.getElem?_eq_some_iff.1 found).1
  · cases result

theorem lt_of_passWhile {member : UInt8 → Bool} {first : UInt8}
    (found : text.byteAt start = .ok first) (starts : member first = true)
    (result : passWhile member text start = .ok stop) : start < stop := by
  rw [passWhile, dif_pos (lt_length_of_byteAt found), found] at result
  exact le_of_passWhile ((if_pos starts).symm.trans result)

theorem between_eq_ok_iff {bytes : Text} :
    text.between start stop = .ok bytes ↔
      start ≤ stop ∧ stop ≤ text.length ∧ bytes = text.extract start stop := by
  unfold Text.between
  split
  · next inside => simp [inside, eq_comm]
  · next outside =>
    simp only [reduceCtorEq, false_iff]
    rintro ⟨ordered, inside, -⟩
    exact outside ⟨ordered, inside⟩

theorem illegalAt_ne_ok {placed : Placed} :
    illegalAt text line start ≠ .ok (.ok placed) := by
  intro result
  obtain ⟨rest, -, result⟩ := bind_eq_ok_iff.1 result
  cases result

theorem lt_of_runAt {kind : Text → Token.Kind} {member : UInt8 → Bool}
    {first : UInt8} (found : text.byteAt start = .ok first)
    (starts : member first = true)
    (result : runAt text line start kind member = .ok (.ok (token, stop))) :
    start < stop := by
  obtain ⟨stop, passed, result⟩ := bind_eq_ok_iff.1 result
  obtain ⟨run, -, result⟩ := bind_eq_ok_iff.1 result
  cases result
  exact lt_of_passWhile found starts passed

theorem lt_of_numberAt {first : UInt8}
    (found : text.byteAt start = .ok first)
    (digit : Text.isDigit first = true)
    (result : numberAt text line start = .ok (.ok (token, stop))) :
    start < stop := by
  obtain ⟨stop, passed, result⟩ := bind_eq_ok_iff.1 result
  obtain ⟨digits, -, result⟩ := bind_eq_ok_iff.1 result
  split at result <;> cases result
  exact lt_of_passWhile found digit passed

theorem lt_of_characterAt
    (result : characterAt text line start = .ok (.ok (token, stop))) :
    start < stop := by
  obtain ⟨rest, -, result⟩ := bind_eq_ok_iff.1 result
  dsimp only at result
  split at result
  · exact absurd result illegalAt_ne_ok
  obtain ⟨closing, -, result⟩ := bind_eq_ok_iff.1 result
  split at result
  · obtain ⟨spelling, -, result⟩ := bind_eq_ok_iff.1 result
    cases result
    omega
  · exact absurd result illegalAt_ne_ok

theorem lt_of_stringAt
    (result : stringAt text line start = .ok (.ok (token, stop))) :
    start < stop := by
  obtain ⟨lineStop, -, result⟩ := bind_eq_ok_iff.1 result
  obtain ⟨inside, -, result⟩ := bind_eq_ok_iff.1 result
  split at result
  · exact absurd result illegalAt_ne_ok
  · obtain ⟨content, -, result⟩ := bind_eq_ok_iff.1 result
    cases result
    omega

/-- A formula has at least its parentheses. -/
theorem lt_of_formulaAt {evaluate : Evaluator}
    (result : formulaAt text line start evaluate = .ok (.ok (token, stop))) :
    start < stop := by
  obtain ⟨lineStop, -, result⟩ := bind_eq_ok_iff.1 result
  obtain ⟨closed, -, result⟩ := bind_eq_ok_iff.1 result
  split at result
  · exact absurd result illegalAt_ne_ok
  next depth last =>
  split at result
  · obtain ⟨spelling, taken, result⟩ := bind_eq_ok_iff.1 result
    obtain ⟨formula, inner, result⟩ := bind_eq_ok_iff.1 result
    obtain ⟨-, -, rfl⟩ := between_eq_ok_iff.1 taken
    obtain ⟨long, -, -⟩ := between_eq_ok_iff.1 inner
    have short : (text.extract start last).length ≤ last - start := by
      rw [List.extract_eq_take_drop]
      exact List.length_take_le _ _
    split at result <;> cases result
    omega
  · exact absurd result illegalAt_ne_ok

/-- A token takes some text. -/
theorem lt_of_tokenAt {evaluator : Option Evaluator}
    (result : tokenAt text line start evaluator = .ok (.ok (token, stop))) :
    start < stop := by
  obtain ⟨first, found, result⟩ := bind_eq_ok_iff.1 result
  split at result
  · next feed =>
    refine lt_of_runAt found ?_ result
    exact beq_iff_eq.2 feed
  split at result
  · next digit => exact lt_of_numberAt found digit result
  split at result
  · exact lt_of_characterAt result
  split at result
  · exact lt_of_stringAt result
  split at result
  · next starts =>
    exact lt_of_runAt found (by simp [Token.isWordByte, starts]) result
  split at result
  · obtain ⟨spelling, -, result⟩ := bind_eq_ok_iff.1 result
    cases result
    exact Nat.lt_succ_self _
  split at result
  · obtain ⟨rest, -, result⟩ := bind_eq_ok_iff.1 result
    split at result
    · exact lt_of_formulaAt result
    · exact absurd result illegalAt_ne_ok
  · exact absurd result illegalAt_ne_ok

/-- Every token but the last one takes some text. -/
theorem next_progress {evaluator : Option Evaluator} {position : Nat}
    (result : next evaluator text line position = .ok (.ok (token, stop)))
    (inside : token.kind ≠ .endOfText) :
    position < text.length ∧ position < stop := by
  obtain ⟨start, passed, result⟩ := bind_eq_ok_iff.1 result
  have further := le_of_passWhile passed
  split at result
  · cases result
    exact absurd rfl inside
  · have taken := lt_of_tokenAt result
    omega

end

/-! ## Whole texts -/

/-- Read the tokens of a text from a position on, onto tokens before it, held
in reverse. -/
def readOnto (evaluator : Option Evaluator) (text : Text)
    (reversed : List Token) (line : Int) (position : Nat) :
    Reading TokenStream :=
  match _read : next evaluator text line position with
  | .error reason => .error reason
  | .ok (.error fault) => .ok ⟨reversed.reverse, some fault⟩
  | .ok (.ok (token, stop)) =>
      if _final : token.kind = .endOfText then
        .ok ⟨(token :: reversed).reverse, none⟩
      else
        readOnto evaluator text (token :: reversed) (line + token.lineEnds)
          stop
termination_by text.length - position
decreasing_by
  have := next_progress _read _final
  omega

/-- The tokens of a text, read by position. -/
def tokenize (evaluator : Option Evaluator) (text : Text) :
    Reading TokenStream :=
  readOnto evaluator text [] 1 0

end Indexed

end FlatAsm
