import FlatAsm.Proofs.Lexemes
import FlatAsm.Token.Indexed

/-!
# Reading by position stays in the text

A position stands for the rest of the text behind it.  Seen like this, reading
by position is reading from the front of what is left, and every access that
it makes is one to the text: where a byte is taken there is one, and what is
cut out of the text lies in it.  So nothing ever breaks off, and the tokens are
the same.
-/

namespace FlatAsm

/-! ## Accesses -/

namespace Text

variable {text front back : Text} {byte : UInt8} {position start : Nat}

theorem byteAt_of_lt (inside : position < text.length) :
    text.byteAt position = .ok text[position] := by
  rw [byteAt, List.getElem?_eq_getElem inside]

theorem getElem?_of_drop (split : text.drop position = byte :: back) :
    text[position]? = some byte := by
  rw [← List.head?_drop, split]
  rfl

theorem lt_length_of_drop (split : text.drop position = byte :: back) :
    position < text.length :=
  (List.getElem?_eq_some_iff.1 (getElem?_of_drop split)).1

theorem byteAt_of_drop (split : text.drop position = byte :: back) :
    text.byteAt position = .ok byte := by
  rw [byteAt, getElem?_of_drop split]

theorem drop_succ (split : text.drop position = byte :: back) :
    text.drop (position + 1) = back := by
  rw [← List.drop_drop, split]
  rfl

theorem drop_of_split (split : text.drop start = front ++ back) :
    text.drop (start + front.length) = back := by
  rw [← List.drop_drop, split, List.drop_left]

/-- What stands at a position can be cut out of the text. -/
theorem between_of_split (inside : start ≤ text.length)
    (split : text.drop start = front ++ back) :
    text.between start (start + front.length) = .ok front := by
  have lengths := congrArg List.length split
  rw [List.length_drop, List.length_append] at lengths
  rw [between, if_pos (by omega), List.extract_eq_take_drop, split,
    Nat.add_sub_cancel_left, List.take_left]

theorem between_length (inside : start ≤ text.length) :
    text.between start text.length = .ok (text.drop start) := by
  rw [between, if_pos ⟨inside, Nat.le_refl _⟩, List.extract_eq_take_drop,
    List.take_of_length_le (by rw [List.length_drop])]

theorem between_zero {stop : Nat} (inside : stop ≤ text.length) :
    text.between 0 stop = .ok (text.take stop) := by
  rw [between, if_pos ⟨Nat.zero_le _, inside⟩, List.extract_eq_take_drop,
    List.drop_zero, Nat.sub_zero]

/-- A byte is found behind all bytes that are different. -/
theorem idxOf?_of_split (different : byte ∉ front) :
    (front ++ byte :: back).idxOf? byte = some front.length := by
  induction front with
  | nil => simp [List.idxOf?_cons]
  | cons first rest inductionHypothesis =>
      simp only [List.mem_cons, not_or] at different
      rw [List.cons_append, List.idxOf?_cons, if_neg, inductionHypothesis]
      · rfl
      · exact different.2
      · simpa using Ne.symm different.1

end Text

namespace Indexed

open Token (Scanned lineFeed)

/-! ## Searching -/

theorem passWhile_eq (member : UInt8 → Bool) (text : Text) (position : Nat) :
    passWhile member text position =
      .ok (position + ((text.drop position).takeWhile member).length) := by
  fun_induction passWhile member text position with
  | case1 position inside inductionHypothesis =>
      rw [Text.byteAt_of_lt inside, List.drop_eq_getElem_cons inside,
        List.takeWhile_cons]
      rw [ok_bind]
      split
      · rw [inductionHypothesis, List.length_cons, Nat.add_right_comm]
        rfl
      · rfl
  | case2 position outside =>
      rw [List.drop_eq_nil_of_le (Nat.le_of_not_lt outside)]
      rfl

/-- The line of a position ends at its first line end, or with the text. -/
theorem lineEnd_of_split {text : Text} {start : Nat} {front back : Text}
    (inside : start ≤ text.length) (split : text.drop start = front ++ back)
    (noFeed : lineFeed ∉ front)
    (ends : back = [] ∨ ∃ rest, back = lineFeed :: rest) :
    lineEnd text start = .ok (start + front.length) := by
  rw [lineEnd, Text.between_length inside, ok_bind, split]
  rcases ends with rfl | ⟨rest, rfl⟩
  · have missing : (front ++ []).idxOf? lineFeed = none := by
      simpa [List.idxOf?_eq_none_iff] using noFeed
    have lengths := congrArg List.length split
    rw [List.length_drop, List.append_nil] at lengths
    rw [missing]
    change Except.ok text.length = _
    congr 1
    omega
  · rw [Text.idxOf?_of_split noFeed]
    rfl

/-! ## Formulas -/

/-- A literal is closed by the same quote. -/
theorem closingQuote_eq {quote : UInt8} {line : Text} {position : Nat}
    (inside : lineFeed ∉ line.drop position) (passed : Text) :
    closingQuote quote line position =
      .ok ((Token.passLiteral quote passed (line.drop position)).map
        fun found => line.length - found.2.length - 1) := by
  fun_induction closingQuote quote line position generalizing passed with
  | case1 position within jumped further =>
      have split := List.drop_eq_getElem_cons within
      rw [split] at inside
      obtain ⟨noFeed, later⟩ := not_or.1 (List.mem_cons.not.1 inside)
      rw [Text.byteAt_of_lt within, ok_bind, split, Token.passLiteral.eq_def]
      dsimp only
      rw [if_neg (Ne.symm noFeed)]
      split
      · -- the byte behind a backslash is passed, if there is one
        cases escaped : line.drop (position + 1) with
        | nil =>
            have none : line.drop (position + 2) = [] := by
              rw [← List.drop_drop, List.drop_drop, List.drop_eq_nil_iff] at *
              omega
            rw [jumped (by simp [none]) passed, none]
            rfl
        | cons byte after =>
            rw [escaped] at later
            obtain ⟨sameLine, inLine⟩ := not_or.1 (List.mem_cons.not.1 later)
            have rest := Text.drop_succ escaped
            dsimp only
            rw [if_neg (Ne.symm sameLine), ← rest]
            rw [← rest] at inLine
            exact jumped inLine _
      split
      · rw [Option.map_some, List.length_drop]
        change Except.ok (some position) = _
        congr 2
        omega
      · exact further later _
  | case2 position outside =>
      rw [List.drop_eq_nil_of_le (Nat.le_of_not_lt outside)]
      rfl

theorem skipQuoted_eq {quote : UInt8} {line rest : Text} {position : Nat}
    (split : line.drop position = quote :: rest) (inside : lineFeed ∉ rest)
    (passed : Text) :
    skipQuoted line position =
      .ok ((Token.passLiteral quote passed rest).map
        fun found => line.length - found.2.length - 1) := by
  rw [← Text.drop_succ split] at inside ⊢
  rw [skipQuoted, Text.byteAt_of_drop split, ok_bind]
  exact closingQuote_eq inside passed

/-- The position after the last parenthesis, if none is left open. -/
def closedAt : Option (Int × Nat) → Option Nat
  | none => none
  | some (depth, stop) => if depth = 0 then some stop else none

section

variable {text rest : Text} {stop position reached : Nat} {depth : Int}
  {byte : UInt8}

theorem byteAt_of_drop_take
    (split : (text.take stop).drop position = byte :: rest) :
    position < stop ∧ text.byteAt position = .ok byte := by
  have found := Text.getElem?_of_drop split
  rw [List.getElem?_take] at found
  split at found
  · next inside => exact ⟨inside, by rw [Text.byteAt, found]⟩
  · cases found

theorem closing_of_drop_take (within : stop ≤ text.length)
    (split : (text.take stop).drop position = byte :: rest) :
    stop - rest.length = position + 1 := by
  have lengths := congrArg List.length split
  rw [List.length_drop, List.length_take, List.length_cons] at lengths
  omega

/-- A byte outside all literals is passed by itself. -/
theorem passParentheses_of_plain
    (split : (text.take stop).drop position = byte :: rest)
    (plain : ¬(byte = 0x22 ∨ byte = 0x27)) :
    passParentheses text stop depth reached position =
      if depthAfter byte depth = 0 then .ok (some (0, position + 1))
      else
        passParentheses text stop (depthAfter byte depth) reached
          (position + 1) := by
  obtain ⟨inside, found⟩ := byteAt_of_drop_take split
  rw [passParentheses, dif_pos inside, found]
  dsimp only
  rw [if_neg plain]
  split
  · next closed => rw [closed]
  · rfl

/-- A literal is passed at once. -/
theorem passParentheses_of_quote (within : stop ≤ text.length)
    (split : (text.take stop).drop position = byte :: rest)
    (inLine : lineFeed ∉ rest) (quotes : byte = 0x22 ∨ byte = 0x27)
    (inside : depth ≠ 0) (passed : Text) :
    passParentheses text stop depth reached position =
      match Token.passLiteral byte passed rest with
      | none => .ok none
      | some (_, after) =>
          passParentheses text stop depth reached (stop - after.length) := by
  obtain ⟨before, found⟩ := byteAt_of_drop_take split
  have closed := skipQuoted_eq split inLine passed
  rw [List.length_take, Nat.min_eq_left within] at closed
  rw [← ok_bind (text.take stop) (skipQuoted · position),
    ← Text.between_zero within] at closed
  have unchanged : depthAfter byte depth = depth := by
    rcases quotes with rfl | rfl <;> rfl
  rw [passParentheses, dif_pos before, found]
  dsimp only
  rw [if_pos quotes, unchanged]
  split
  · next failed => cases closed.symm.trans failed
  · next unclosed =>
    have none := Except.ok.inj (closed.symm.trans unclosed)
    rw [Option.map_eq_none_iff.1 none]
  · next last skipped =>
    have some := Except.ok.inj (closed.symm.trans skipped)
    obtain ⟨⟨passed', after⟩, literal, rfl⟩ := Option.map_eq_some_iff.1 some
    have shorter := Token.passLiteral_length_lt literal
    have lengths := congrArg List.length split
    rw [List.length_drop, List.length_take, List.length_cons] at lengths
    rw [if_neg inside, literal]
    dsimp only
    congr 1
    omega

/-- Parentheses are closed by the same one. -/
theorem passParentheses_closes (within : stop ≤ text.length) {count : Nat}
    {line : Text} (split : (text.take stop).drop position = line)
    (inLine : lineFeed ∉ line) (same : depth = count) (inside : 1 ≤ count)
    (passed : Text) :
    ∃ outcome,
      passParentheses text stop depth reached position = .ok outcome ∧
        closedAt outcome =
          (Token.passEnclosed count passed line).map
            fun found => stop - found.2.length := by
  fun_induction Token.passEnclosed count passed line
    generalizing position depth with
  | case1 =>
      have ended := List.drop_eq_nil_iff.1 split
      rw [List.length_take, Nat.min_eq_left within] at ended
      rw [passParentheses, dif_neg (Nat.not_lt.2 ended)]
      exact ⟨_, rfl, if_neg (by omega)⟩
  | case2 => simp at inLine
  | case3 count passed rest _ inductionHypothesis =>
      rw [passParentheses_of_plain split (by decide), if_neg]
      · refine inductionHypothesis (Text.drop_succ split)
          (List.not_mem_of_not_mem_cons inLine) ?_ (by omega)
        rw [depthAfter, if_pos rfl]
        omega
      · rw [depthAfter, if_pos rfl]
        omega
  | case4 count passed rest last _ =>
      rw [passParentheses_of_plain split (by decide), if_pos]
      · refine ⟨_, rfl, ?_⟩
        rw [Option.map_some, closing_of_drop_take within split]
        rfl
      · rw [depthAfter, if_neg (by decide), if_pos rfl]
        omega
  | case5 count passed rest deeper _ _ inductionHypothesis =>
      rw [passParentheses_of_plain split (by decide), if_neg]
      · refine inductionHypothesis (Text.drop_succ split)
          (List.not_mem_of_not_mem_cons inLine) ?_ (by omega)
        rw [depthAfter, if_neg (by decide), if_pos rfl]
        omega
      · rw [depthAfter, if_neg (by decide), if_pos rfl]
        omega
  | case6 count passed byte rest _ _ _ quotes unclosed =>
      rw [passParentheses_of_quote within split
        (List.not_mem_of_not_mem_cons inLine) quotes (by omega)
        (byte :: passed), unclosed]
      exact ⟨none, rfl, rfl⟩
  | case7 count passed byte rest _ _ _ quotes passed' after literal
      inductionHypothesis =>
      rw [passParentheses_of_quote within split
        (List.not_mem_of_not_mem_cons inLine) quotes (by omega)
        (byte :: passed), literal]
      obtain ⟨front, -, rfl, -⟩ := Token.passLiteral_eq_some literal
      have suffix : after <:+ text.take stop :=
        ((List.suffix_append _ _).trans (List.suffix_cons byte _)).trans
          (split ▸ List.drop_suffix _ _)
      have behind := (List.suffix_iff_eq_drop.1 suffix).symm
      rw [List.length_take, Nat.min_eq_left within] at behind
      refine inductionHypothesis behind (fun member => inLine ?_) same inside
      exact List.mem_cons_of_mem _ (List.mem_append_right _ member)
  | case8 count passed byte rest _ noOpen noClose noQuote
      inductionHypothesis =>
      have unchanged : depthAfter byte depth = depth := by
        rw [depthAfter, if_neg noOpen, if_neg noClose]
      rw [passParentheses_of_plain split noQuote, unchanged,
        if_neg (by omega)]
      exact inductionHypothesis (Text.drop_succ split)
        (List.not_mem_of_not_mem_cons inLine) same inside

end

/-! ## Tokens -/

/-- A token, with the rest of a text in place of the position after it. -/
def observe (text : Text) (placed : Placed) : Scanned :=
  ⟨placed.1, text.drop placed.2⟩

/-- Nothing breaks off, and what is found is what is read from the front. -/
def Finds (text : Text) (reading : Reading (Except Error Placed))
    (scan : Except Error Scanned) : Prop :=
  ∃ outcome, reading = .ok outcome ∧ outcome.map (observe text) = scan

section

variable {text rest : Text} {line : Int} {start : Nat}

theorem illegalAt_finds {first : UInt8}
    (split : text.drop start = first :: rest) :
    Finds text (illegalAt text line start)
      (Token.illegal line (first :: rest)) := by
  rw [illegalAt, Text.between_length (Text.lt_length_of_drop split).le, split]
  exact ⟨_, rfl, rfl⟩

theorem runAt_finds (kind : Text → Token.Kind) (member : UInt8 → Bool)
    (inside : start ≤ text.length) :
    Finds text (runAt text line start kind member)
      (.ok (Token.scanRun kind line member (text.drop start))) := by
  have split := (@List.takeWhile_append_dropWhile _ member
    (text.drop start)).symm
  rw [runAt, passWhile_eq, ok_bind, Text.between_of_split inside split]
  refine ⟨_, rfl, ?_⟩
  simp only [Except.map, observe, Text.drop_of_split split]
  rfl

theorem numberAt_finds (inside : start ≤ text.length) :
    Finds text (numberAt text line start)
      (Token.scanNumber line (text.drop start)) := by
  have split := (@List.takeWhile_append_dropWhile _ Text.isDigit
    (text.drop start)).symm
  rw [numberAt, passWhile_eq, ok_bind, Text.between_of_split inside split,
    ok_bind, Token.scanNumber]
  cases Text.decimalBelow? 0x8000000000000000
      ((text.drop start).takeWhile Text.isDigit) with
  | none => exact ⟨_, rfl, rfl⟩
  | some value =>
      refine ⟨_, rfl, ?_⟩
      simp only [Except.map, observe, Text.drop_of_split split]

theorem characterAt_finds (split : text.drop start = 0x27 :: rest) :
    Finds text (characterAt text line start)
      (Token.scanCharacter line rest) := by
  have illegal := @illegalAt_finds text _ line start _ split
  have behind := Text.drop_succ split
  have further : start + 1 ≤ text.length := Text.lt_length_of_drop split
  rw [characterAt, Text.between_length further, behind, ok_bind,
    Token.scanCharacter]
  generalize Text.firstCharacter rest = character
  have after : rest.drop character.size =
      text.drop (start + 1 + character.size) := by
    rw [← behind, List.drop_drop]
  dsimp only
  rw [after]
  by_cases flawed : character.size = 0 ∨ character.code = lineFeed.toNat
  · rw [if_pos (by tauto)]
    split
    · rw [if_pos flawed]
      exact illegal
    · exact illegal
  by_cases past : text.length ≤ start + 1 + character.size
  · rw [if_pos (by tauto), List.drop_eq_nil_of_le past]
    exact illegal
  have within := Nat.lt_of_not_le past
  have legal : ¬(character.size = 0 ∨ character.code = lineFeed.toNat ∨
      text.length ≤ start + 1 + character.size) := by
    tauto
  simp only [if_neg legal, if_neg flawed, Text.byteAt_of_lt within, ok_bind]
  have closing := List.drop_eq_getElem_cons within
  split
  · next quote =>
    rw [quote] at closing
    have size : (rest.take character.size).length = character.size := by
      rw [List.length_take, ← behind, List.length_drop]
      omega
    have whole : text.drop start =
        (0x27 :: rest.take character.size ++ [0x27]) ++
          text.drop (start + 1 + character.size + 1) := by
      rw [split, List.append_assoc, List.singleton_append, ← closing, ← after,
        List.cons_append, List.take_append_drop]
    have spelled := Text.between_of_split
      (Text.lt_length_of_drop split).le whole
    have stop : start +
        (0x27 :: rest.take character.size ++ [0x27]).length =
          start + 1 + character.size + 1 := by
      simp only [List.cons_append, List.length_cons, List.length_append,
        List.length_nil, size]
      omega
    rw [stop] at spelled
    rw [spelled, closing]
    exact ⟨_, rfl, rfl⟩
  · next other =>
    rw [closing]
    split
    · next same => exact absurd (List.cons.inj same).1 other
    · exact illegal

/-- Bytes on the line, and what ends it. -/
theorem exists_line (text : Text) :
    ∃ front back, text = front ++ back ∧ lineFeed ∉ front ∧
      (back = [] ∨ ∃ rest, back = lineFeed :: rest) := by
  by_cases member : lineFeed ∈ text
  · obtain ⟨front, rest, split, noFeed⟩ := List.eq_append_cons_of_mem member
    exact ⟨front, lineFeed :: rest, split, noFeed, .inr ⟨rest, rfl⟩⟩
  · exact ⟨text, [], (List.append_nil _).symm, member, .inl rfl⟩

theorem stringAt_finds (split : text.drop start = 0x22 :: rest) :
    Finds text (stringAt text line start) (Token.scanString line rest) := by
  have illegal := @illegalAt_finds text _ line start _ split
  obtain ⟨inner, back, rfl, noFeed, ends⟩ := exists_line rest
  have ended := lineEnd_of_split (Text.lt_length_of_drop split).le
    (split.trans (List.cons_append (a := 0x22)).symm)
    (by simpa [lineFeed] using noFeed) ends
  have behind := Text.drop_succ split
  have further : start + 1 ≤ text.length := Text.lt_length_of_drop split
  have inside := Text.between_of_split further behind
  rw [Nat.add_right_comm, Nat.add_assoc] at inside
  rw [stringAt, ended, ok_bind, List.length_cons, inside, ok_bind]
  by_cases quote : 0x22 ∈ inner
  · obtain ⟨content, after, rfl, noQuote⟩ :=
      List.eq_append_cons_of_mem quote
    rw [List.append_assoc, List.cons_append] at behind ⊢
    have same : ∀ byte ∈ content, byte ≠ 0x22 ∧ byte ≠ lineFeed := by
      intro byte member
      refine ⟨ne_of_mem_of_not_mem member noQuote, ?_⟩
      exact ne_of_mem_of_not_mem (List.mem_append_left _ member) noFeed
    have spelled := Text.between_of_split further behind
    rw [Token.scanString_of_inside same, Text.idxOf?_of_split noQuote]
    dsimp only
    rw [Nat.add_sub_cancel, spelled]
    refine ⟨_, rfl, ?_⟩
    have rest := Text.drop_succ (Text.drop_of_split behind)
    simp only [Except.map, observe, rest]
  · have missing : inner.idxOf? 0x22 = none := by
      simpa [List.idxOf?_eq_none_iff] using quote
    have read : Token.scanString line (inner ++ back) =
        Token.illegal line (0x22 :: (inner ++ back)) := by
      have goesOn : ∀ byte ∈ inner, Token.isStringByte byte = true := by
        intro byte member
        simp [Token.isStringByte, ne_of_mem_of_not_mem member quote,
          ne_of_mem_of_not_mem member noFeed]
      have stopped : Token.Stops Token.isStringByte back := by
        rcases ends with rfl | ⟨rest, rfl⟩ <;>
          simp [Token.Stops, Token.isStringByte]
      rw [Token.scanString, (Token.span_of_stops goesOn stopped).2]
      rcases ends with rfl | ⟨rest, rfl⟩ <;> rfl
    rw [missing, read]
    exact illegal

theorem markAt_finds {first : UInt8} (mark : Mark)
    (split : text.drop start = first :: rest) :
    Finds text (markAt text line start mark)
      (.ok ⟨⟨.punctuation mark, line, [first]⟩, rest⟩) := by
  have spelled := @Text.between_of_split text [first] rest start
    (Text.lt_length_of_drop split).le split
  rw [List.length_singleton] at spelled
  rw [markAt, spelled]
  refine ⟨_, rfl, ?_⟩
  simp only [Except.map, observe, Text.drop_succ split]

/-- Parentheses are closed on their line or not at all. -/
theorem passEnclosed_append {inner back : Text} (noFeed : lineFeed ∉ inner)
    (ends : back = [] ∨ ∃ rest, back = lineFeed :: rest) :
    Token.passEnclosed 1 [] (inner ++ back) =
      (Token.passEnclosed 1 [] inner).map (Prod.map id (· ++ back)) := by
  rcases ends with rfl | ⟨rest, rfl⟩
  · rw [List.append_nil]
    cases Token.passEnclosed 1 [] inner <;> simp [Prod.map]
  · exact Token.passEnclosed_line noFeed rest 1 []

theorem closedAt_eq_some {outcome : Option (Int × Nat)} {stop : Nat}
    (closed : closedAt outcome = some stop) : outcome = some (0, stop) := by
  unfold closedAt at closed
  split at closed
  · cases closed
  · split at closed
    · next none =>
      cases closed
      rw [none]
    · cases closed

theorem formulaAt_finds (evaluate : Evaluator)
    (split : text.drop start = 0x24 :: 0x28 :: rest) :
    Finds text (formulaAt text line start evaluate)
      (Token.scanFormula evaluate line rest) := by
  have illegal := @illegalAt_finds text _ line start _ split
  obtain ⟨inner, back, rfl, noFeed, ends⟩ := exists_line rest
  have ended := @lineEnd_of_split text start (0x24 :: 0x28 :: inner) back
    (Text.lt_length_of_drop split).le split
    (by simpa [lineFeed] using noFeed) ends
  obtain ⟨stop, size⟩ : ∃ stop,
      start + (0x24 :: 0x28 :: inner).length = stop := ⟨_, rfl⟩
  rw [size] at ended
  have within : stop ≤ text.length := by
    have lengths := congrArg List.length split
    simp only [List.length_drop, List.length_cons, List.length_append]
      at lengths size
    omega
  have onLine : (text.take stop).drop start = 0x24 :: 0x28 :: inner := by
    rw [List.drop_take, split, ← size, Nat.add_sub_cancel_left]
    exact List.take_left' rfl
  have opened := Text.drop_succ onLine
  obtain ⟨outcome, passed, closed⟩ := @passParentheses_closes text stop
    (start + 2) start 1 within 1 inner (Text.drop_succ opened) noFeed rfl
    (Nat.le_refl 1) []
  have passed' : passParentheses text stop 0 start (start + 1) =
      .ok outcome := by
    rw [passParentheses_of_plain opened (by decide), if_neg (by decide)]
    exact passed
  rw [formulaAt, ended, ok_bind, passed', ok_bind, Token.scanFormula_eq,
    passEnclosed_append noFeed ends]
  cases found : Token.passEnclosed 1 [] inner with
  | none =>
      rw [found] at closed
      split
      · exact illegal
      · next depth last =>
        have stillOpen : depth ≠ 0 := by
          rintro rfl
          cases closed
        rw [if_neg stillOpen]
        exact illegal
  | some result =>
      rw [found] at closed
      rw [closedAt_eq_some closed]
      obtain ⟨passed, after⟩ := result
      obtain ⟨formula, rfl, rfl⟩ := Token.passEnclosed_eq_some found
      have whole : text.drop start =
          Token.formulaText formula ++ (after ++ back) := by
        simp [split, Token.formulaText]
      have last : stop - after.length =
          start + (Token.formulaText formula).length := by
        simp only [← size, Token.formulaText, List.length_cons,
          List.length_append, List.length_nil]
        omega
      have spelled := Text.between_of_split
        (Text.lt_length_of_drop split).le whole
      have inside : (Token.formulaText formula).between 2
          ((Token.formulaText formula).length - 1) = .ok formula := by
        have enclosed := @Text.between_of_split (Token.formulaText formula)
          formula [0x29] 2 (by simp [Token.formulaText]) rfl
        have size : (Token.formulaText formula).length - 1 =
            2 + formula.length := by
          simp only [Token.formulaText, List.length_cons, List.length_append,
            List.length_nil]
          omega
        rw [size, enclosed]
      dsimp only [Option.map_some, Prod.map, id]
      rw [if_pos rfl, last, spelled, ok_bind, inside, ok_bind,
        List.append_nil, Token.reverse_closed, List.drop_succ_cons,
        List.drop_zero, List.reverse_reverse]
      cases evaluate formula line with
      | error cause => exact ⟨_, rfl, rfl⟩
      | ok value =>
          refine ⟨_, rfl, ?_⟩
          simp only [Except.map, observe, Text.drop_of_split whole]
          rfl

/-- What stands at a position is what is read from the front there. -/
theorem tokenAt_finds (evaluator : Option Evaluator)
    (inside : start < text.length) :
    Finds text (tokenAt text line start evaluator)
      (Token.scanToken evaluator line (text.drop start)) := by
  have split := List.drop_eq_getElem_cons inside
  rw [tokenAt, Text.byteAt_of_lt inside, ok_bind, Token.scanToken_eq]
  generalize text[start] = first at split ⊢
  generalize text.drop (start + 1) = rest at split ⊢
  have illegal := @illegalAt_finds text _ line start _ split
  rw [split]
  dsimp only
  split
  · rw [← split]
    exact runAt_finds _ _ inside.le
  split
  · rw [← split]
    exact numberAt_finds inside.le
  split
  · next quote =>
    subst quote
    exact characterAt_finds split
  split
  · next quote =>
    subst quote
    exact stringAt_finds split
  split
  · rw [← split]
    exact runAt_finds _ _ inside.le
  cases Mark.ofByte? first with
  | some mark => exact markAt_finds mark split
  | none =>
      dsimp only
      split
      · have remaining := @Text.between_length text start inside.le
        rw [split] at remaining
        rw [remaining, ok_bind]
        split
        · next starts =>
          obtain ⟨inner, same⟩ := List.isPrefixOf_iff_prefix.1 starts
          cases same
          exact formulaAt_finds _ split
        · next other =>
          split
          · exact absurd rfl other
          · exact illegal
      · next noFormula =>
        split
        · exact (noFormula _ rfl rfl).elim
        · exact illegal

end

/-- What is found from a position on is what is read from the front there. -/
theorem next_finds (evaluator : Option Evaluator) (text : Text) (line : Int)
    (position : Nat) :
    Finds text (next evaluator text line position)
      (Token.scanToken evaluator line
        ((text.drop position).dropWhile Token.isBlank)) := by
  have rest := Text.drop_of_split (@List.takeWhile_append_dropWhile _
    Token.isBlank (text.drop position)).symm
  rw [next, passWhile_eq, ok_bind, ← rest]
  split
  · next ended =>
    rw [List.drop_eq_nil_of_le ended]
    refine ⟨_, rfl, ?_⟩
    simp only [Except.map, observe, List.drop_eq_nil_of_le ended]
    rfl
  · next inside => exact tokenAt_finds evaluator (Nat.lt_of_not_le inside)

/-! ## Whole texts -/

theorem readOnto_eq (evaluator : Option Evaluator) (text : Text)
    (reversed : List Token) (line : Int) (position : Nat) :
    readOnto evaluator text reversed line position =
      .ok (TokenStream.scanOnto evaluator reversed line
        (text.drop position)) := by
  fun_induction readOnto evaluator text reversed line position with
  | case1 reversed line position reason failed =>
      obtain ⟨outcome, found, -⟩ := next_finds evaluator text line position
      cases failed.symm.trans found
  | case2 reversed line position fault rejected =>
      obtain ⟨outcome, found, read⟩ := next_finds evaluator text line position
      cases rejected.symm.trans found
      rw [TokenStream.scanOnto_eq, ← read]
      rfl
  | case3 reversed line position token stop placed final =>
      obtain ⟨outcome, found, read⟩ := next_finds evaluator text line position
      cases placed.symm.trans found
      rw [TokenStream.scanOnto_eq, ← read]
      exact congrArg Except.ok (if_pos final).symm
  | case4 reversed line position token stop placed further
      inductionHypothesis =>
      obtain ⟨outcome, found, read⟩ := next_finds evaluator text line position
      cases placed.symm.trans found
      rw [inductionHypothesis, TokenStream.scanOnto_eq evaluator reversed,
        ← read]
      exact congrArg Except.ok (if_neg further).symm

/--
No access by position goes beyond a text, and its tokens are found.

Reading ends with the text or at an error.
-/
theorem tokenize_eq (evaluator : Option Evaluator) (text : Text) :
    tokenize evaluator text = .ok (FlatAsm.tokenize evaluator text) :=
  readOnto_eq evaluator text [] 1 0

end Indexed

end FlatAsm
