import FlatAsm.Proofs.Lexemes
import Mathlib.Data.List.Infix

/-!
# Where formulas end

A formula is found by passing whole string literals at once and counting
parentheses in between.  The same is said here by an automaton that takes one
byte after the other and keeps in mind how many parentheses are open, whether
a literal is, and whether the next byte is escaped.  Bytes beyond ASCII mean
nothing to it, so characters of several bytes need no care.

The formula ends at the first parenthesis after which the automaton has
nothing open, provided there is one on the line.  An evaluator is asked for
the text in between, once, and for nothing else: whatever effects it has, they
happen as often as it is asked.
-/

namespace FlatAsm.Token

/-! ## Nesting -/

/-- What is open between two bytes of a formula. -/
structure Nesting where
  depth : Int
  quote : Option UInt8
  escaped : Bool
  deriving DecidableEq, Repr

namespace Nesting

/-- Nothing is open before a formula. -/
def outside : Nesting :=
  ⟨0, none, false⟩

/-- Some parentheses are open, and no literal is. -/
def within (depth : Int) : Nesting :=
  ⟨depth, none, false⟩

/-- What is open after a byte. -/
def step (nesting : Nesting) (byte : UInt8) : Nesting :=
  match nesting.quote with
  | none =>
      if byte = 0x28 then { nesting with depth := nesting.depth + 1 }
      else if byte = 0x29 then { nesting with depth := nesting.depth - 1 }
      else if byte = 0x22 ∨ byte = 0x27 then
        { nesting with quote := some byte }
      else nesting
  | some quote =>
      if nesting.escaped then { nesting with escaped := false }
      else if byte = 0x5c then { nesting with escaped := true }
      else if byte = quote then { nesting with quote := none }
      else nesting

theorem within_depth (depth : Int) : (within depth).depth = depth :=
  rfl

theorem within_step_open (depth : Int) :
    (within depth).step 0x28 = within (depth + 1) :=
  rfl

theorem within_step_close (depth : Int) :
    (within depth).step 0x29 = within (depth - 1) :=
  rfl

theorem within_step_quote {depth : Int} {byte : UInt8}
    (quotes : byte = 0x22 ∨ byte = 0x27) :
    (within depth).step byte = ⟨depth, some byte, false⟩ := by
  rcases quotes with rfl | rfl <;> rfl

/-- What is open after some bytes. -/
def after (nesting : Nesting) (bytes : Text) : Nesting :=
  bytes.foldl step nesting

/-- Parentheses are closed by the last of the bytes, and by none before. -/
structure Closes (nesting : Nesting) (bytes : Text) : Prop where
  nonempty : bytes ≠ []
  closed : (nesting.after bytes).depth = 0
  first : ∀ front, front <+: bytes → front ≠ [] → front ≠ bytes →
    (nesting.after front).depth ≠ 0

variable {nesting : Nesting} {byte : UInt8} {rest : Text}

theorem closes_cons_of_closed (closed : (nesting.step byte).depth = 0) :
    nesting.Closes (byte :: rest) ↔ rest = [] := by
  constructor
  · intro closes
    by_contra further
    refine closes.first [byte] ?_ (by simp) ?_ closed
    · exact ⟨rest, rfl⟩
    · simpa using further
  · rintro rfl
    refine ⟨by simp, closed, ?_⟩
    intro front before nonempty different
    rcases List.prefix_cons_iff.1 before with rfl | ⟨more, rfl, short⟩
    · exact absurd rfl nonempty
    · rw [List.prefix_nil.1 short] at different
      exact absurd rfl different

theorem closes_cons_of_open (stays : (nesting.step byte).depth ≠ 0) :
    nesting.Closes (byte :: rest) ↔ (nesting.step byte).Closes rest := by
  constructor
  · intro closes
    refine ⟨?_, closes.closed, ?_⟩
    · rintro rfl
      exact stays closes.closed
    · intro front before _ different
      refine closes.first (byte :: front) ?_ (by simp) ?_
      · exact (List.prefix_cons_inj byte).2 before
      · simpa using different
  · intro closes
    refine ⟨by simp, closes.closed, ?_⟩
    intro front before nonempty different
    rcases List.prefix_cons_iff.1 before with rfl | ⟨more, rfl, short⟩
    · exact absurd rfl nonempty
    · by_cases empty : more = []
      · rw [empty]
        exact stays
      · refine closes.first more short empty ?_
        simpa using different

/-- Parentheses are closed after some of the bytes. -/
def Ends (bytes : Text) : Prop :=
  ∃ part, part <+: bytes ∧ part ≠ [] ∧ (outside.after part).depth = 0

instance (bytes : Text) : Decidable (Ends bytes) :=
  decidable_of_iff
    (∃ part ∈ bytes.inits, part ≠ [] ∧ (outside.after part).depth = 0)
    (by simp only [List.mem_inits, Ends])

/-- Among the bytes that close parentheses there are first ones. -/
theorem exists_closes {bytes : Text} (nonempty : bytes ≠ [])
    (closed : (nesting.after bytes).depth = 0) :
    ∃ part, part <+: bytes ∧ nesting.Closes part := by
  induction bytes generalizing nesting with
  | nil => exact absurd rfl nonempty
  | cons byte rest inductionHypothesis =>
      by_cases closed' : (nesting.step byte).depth = 0
      · exact ⟨[byte], ⟨rest, rfl⟩, (closes_cons_of_closed closed').2 rfl⟩
      · have further : rest ≠ [] := by
          rintro rfl
          exact closed' closed
        rcases inductionHypothesis further closed with ⟨part, short, closes⟩
        exact ⟨byte :: part, (List.prefix_cons_inj byte).2 short,
          (closes_cons_of_open closed').2 closes⟩

/-- Pass bytes one at a time, up to where nothing is open any more. -/
def close (nesting : Nesting) (passed : Text) : Text → Option (Text × Text)
  | [] => none
  | byte :: rest =>
      if byte = lineFeed then none
      else if (nesting.step byte).depth = 0 then some (byte :: passed, rest)
      else close (nesting.step byte) (byte :: passed) rest

theorem close_cons_of_closed {passed : Text} (inLine : byte ≠ lineFeed)
    (closed : (nesting.step byte).depth = 0) :
    nesting.close passed (byte :: rest) = some (byte :: passed, rest) := by
  rw [close, if_neg inLine, if_pos closed]

theorem close_cons_of_open {passed : Text} (inLine : byte ≠ lineFeed)
    (stays : (nesting.step byte).depth ≠ 0) :
    nesting.close passed (byte :: rest) =
      (nesting.step byte).close (byte :: passed) rest := by
  rw [close, if_neg inLine, if_neg stays]

theorem close_eq_some_iff {passed text passed' rest : Text} :
    nesting.close passed text = some (passed', rest) ↔
      ∃ front, text = front ++ rest ∧ passed' = front.reverse ++ passed ∧
        lineFeed ∉ front ∧ nesting.Closes front := by
  induction text generalizing nesting passed with
  | nil =>
      refine iff_of_false (by simp [close]) ?_
      rintro ⟨front, split, -, -, closes⟩
      exact closes.nonempty (List.append_eq_nil_iff.1 split.symm).1
  | cons byte text inductionHypothesis =>
      have inFront : ∀ {front : Text}, byte :: text = front ++ rest →
          front ≠ [] → ∃ more, front = byte :: more ∧ text = more ++ rest := by
        intro front split nonempty
        rcases List.exists_cons_of_ne_nil nonempty with ⟨head, more, rfl⟩
        cases split
        exact ⟨more, rfl, rfl⟩
      rw [close]
      split
      · next feed =>
        refine iff_of_false nofun ?_
        rintro ⟨front, split, -, inLine, closes⟩
        rcases inFront split closes.nonempty with ⟨more, rfl, -⟩
        exact inLine (feed ▸ List.mem_cons_self)
      next noFeed =>
      split
      · next closed =>
        constructor
        · rintro ⟨⟩
          refine ⟨[byte], rfl, rfl, ?_, (closes_cons_of_closed closed).2 rfl⟩
          simpa using Ne.symm noFeed
        · rintro ⟨front, split, rfl, -, closes⟩
          rcases inFront split closes.nonempty with ⟨more, rfl, rfl⟩
          rw [(closes_cons_of_closed closed).1 closes]
          rfl
      · next stays =>
        rw [inductionHypothesis]
        constructor
        · rintro ⟨front, rfl, rfl, inLine, closes⟩
          refine ⟨byte :: front, rfl, by simp, ?_,
            (closes_cons_of_open stays).2 closes⟩
          simpa using ⟨Ne.symm noFeed, inLine⟩
        · rintro ⟨front, split, rfl, inLine, closes⟩
          rcases inFront split closes.nonempty with ⟨more, rfl, rfl⟩
          refine ⟨more, rfl, by simp, ?_,
            (closes_cons_of_open stays).1 closes⟩
          exact fun member => inLine (List.mem_cons_of_mem _ member)

-- a parenthesis between quotes, and one after an escaped quote
example :
    outside.close [] (Text.ascii "(')'+\"\\\")\"),x") =
      some ((Text.ascii "(')'+\"\\\")\")").reverse, Text.ascii ",x") := by
  decide +kernel

end Nesting

/-! ## Passing whole literals -/

/-- Passing a literal is passing its bytes. -/
theorem close_of_quote {depth : Int} (inside : depth ≠ 0)
    (quote : UInt8) (passed text : Text) :
    (⟨depth, some quote, false⟩ : Nesting).close passed text =
      (passLiteral quote passed text).bind fun result =>
        (Nesting.within depth).close result.1 result.2 := by
  fun_induction passLiteral quote passed text with
  | case1 => rfl
  | case2 => simp [Nesting.close]
  | case3 => simp [Nesting.close, Nesting.step, inside]
  | case4 => simp [Nesting.close, Nesting.step, inside]
  | case5 passed escaped after sameLine inLine inductionHypothesis =>
      have escapes : (⟨depth, some quote, false⟩ : Nesting).step 0x5c =
          ⟨depth, some quote, true⟩ := rfl
      have taken : (⟨depth, some quote, true⟩ : Nesting).step escaped =
          ⟨depth, some quote, false⟩ := rfl
      rw [← inductionHypothesis, Nesting.close_cons_of_open inLine, escapes,
        Nesting.close_cons_of_open sameLine, taken]
      · exact inside
      · exact inside
  | case6 passed remaining inLine noEscape =>
      simp [Nesting.close, Nesting.step, Nesting.within, inside, inLine,
        noEscape]
  | case7 passed byte _ inLine noEscape other inductionHypothesis =>
      rw [← inductionHypothesis]
      simp [Nesting.close, Nesting.step, inside, inLine, noEscape, other]

theorem close_cons_quote {depth : Int} (inside : depth ≠ 0) {byte : UInt8}
    (quotes : byte = 0x22 ∨ byte = 0x27) (passed text : Text) :
    (Nesting.within depth).close passed (byte :: text) =
      (passLiteral byte (byte :: passed) text).bind fun result =>
        (Nesting.within depth).close result.1 result.2 := by
  have inLine : byte ≠ lineFeed := by
    rcases quotes with rfl | rfl <;> decide
  rw [Nesting.close_cons_of_open inLine, Nesting.within_step_quote quotes,
    close_of_quote inside]
  rw [Nesting.within_step_quote quotes]
  exact inside

/-- Formulas are delimited as the automaton says. -/
theorem passEnclosed_eq_close {depth : Nat} (inside : 1 ≤ depth)
    (passed text : Text) :
    passEnclosed depth passed text =
      (Nesting.within depth).close passed text := by
  fun_induction passEnclosed depth passed text with
  | case1 => rfl
  | case2 => simp [Nesting.close]
  | case3 depth passed rest inLine inductionHypothesis =>
      rw [inductionHypothesis (by omega), Nesting.close_cons_of_open inLine]
      · rw [Nesting.within_step_open, Nat.cast_succ]
      · rw [Nesting.within_step_open, Nesting.within_depth]
        omega
  | case4 depth passed rest last inLine =>
      symm
      apply Nesting.close_cons_of_closed inLine
      rw [Nesting.within_step_close, Nesting.within_depth]
      omega
  | case5 depth passed rest deeper inLine _ inductionHypothesis =>
      have fewer : ((depth - 1 : Nat) : Int) = depth - 1 := by omega
      rw [inductionHypothesis (by omega), Nesting.close_cons_of_open inLine]
      · rw [Nesting.within_step_close, fewer]
      · rw [Nesting.within_step_close, Nesting.within_depth]
        omega
  | case6 depth passed byte rest _ _ _ quotes unclosed =>
      rw [close_cons_quote (by omega) quotes, unclosed]
      rfl
  | case7 depth passed byte rest _ _ _ quotes passed' rest' literal
      inductionHypothesis =>
      rw [close_cons_quote (by omega) quotes, literal,
        inductionHypothesis inside]
      rfl
  | case8 depth passed byte rest inLine noOpen noClose noQuote
      inductionHypothesis =>
      have unchanged : (Nesting.within depth).step byte =
          Nesting.within depth := by
        simp [Nesting.step, Nesting.within, noOpen, noClose, noQuote]
      rw [inductionHypothesis inside, Nesting.close_cons_of_open inLine]
      · rw [unchanged]
      · rw [unchanged, Nesting.within_depth]
        omega

/-! ## The end of a formula -/

/-- What is left of the line at the front of a text. -/
def restOfLine (text : Text) : Text :=
  text.takeWhile (· != lineFeed)

theorem prefix_restOfLine_iff {part text : Text} :
    part <+: restOfLine text ↔ part <+: text ∧ lineFeed ∉ part := by
  constructor
  · intro short
    refine ⟨short.trans (List.takeWhile_prefix _), ?_⟩
    intro feed
    have other := List.mem_takeWhile_imp (short.subset feed)
    simp at other
  · rintro ⟨⟨after, rfl⟩, inLine⟩
    have others : ∀ byte ∈ part, (byte != lineFeed) = true := by
      intro byte member
      simpa using ne_of_mem_of_not_mem member inLine
    rw [restOfLine, List.takeWhile_append_of_pos others]
    exact List.prefix_append _ _

/-- The first parenthesis of a formula opens what the rest has to close. -/
theorem closes_open_iff {front : Text} :
    Nesting.outside.Closes (0x28 :: front) ↔
      (Nesting.within 1).Closes front :=
  Nesting.closes_cons_of_open Int.one_ne_zero

/-- A formula is found exactly if the automaton comes to its end. -/
theorem passEnclosed_one_eq_some_iff {rest passed after : Text} :
    passEnclosed 1 [] rest = some (passed, after) ↔
      ∃ front, rest = front ++ after ∧ passed = front.reverse ∧
        lineFeed ∉ front ∧ Nesting.outside.Closes (0x28 :: front) := by
  rw [passEnclosed_eq_close (Nat.le_refl 1), Nat.cast_one,
    Nesting.close_eq_some_iff]
  simp only [List.append_nil, closes_open_iff]

/-- The formula at the front of a text that goes on after `$`. -/
theorem passEnclosed_of_ends {rest : Text}
    (ends : Nesting.Ends (restOfLine (0x28 :: rest))) :
    ∃ formula after, rest = formula ++ 0x29 :: after ∧
      0x28 :: formula ++ [0x29] <+: restOfLine (0x28 :: rest) ∧
      Nesting.outside.Closes (0x28 :: formula ++ [0x29]) ∧
      passEnclosed 1 [] rest = some (0x29 :: formula.reverse, after) := by
  rcases ends with ⟨bytes, onLine, nonempty, closed⟩
  rcases Nesting.exists_closes nonempty closed with ⟨part, short, closes⟩
  have onLine' := short.trans onLine
  rcases prefix_restOfLine_iff.1 onLine' with ⟨⟨after, split⟩, inLine⟩
  rcases List.exists_cons_of_ne_nil closes.nonempty with ⟨first, front, rfl⟩
  rcases List.cons.inj split with ⟨rfl, rfl⟩
  have found : passEnclosed 1 [] (front ++ after) =
      some (front.reverse, after) :=
    passEnclosed_one_eq_some_iff.2
      ⟨front, rfl, rfl, fun member => inLine (.tail _ member), closes⟩
  rcases passEnclosed_eq_some found with ⟨formula, split, reversed⟩
  have whole : front = formula ++ [0x29] := by
    have := congrArg List.reverse reversed
    simpa using this
  subst whole
  refine ⟨formula, after, by simp, onLine', closes, ?_⟩
  simpa using found

theorem passEnclosed_of_not_ends {rest : Text}
    (endless : ¬ Nesting.Ends (restOfLine (0x28 :: rest))) :
    passEnclosed 1 [] rest = none := by
  rw [Option.eq_none_iff_forall_ne_some]
  rintro ⟨passed, after⟩ found
  rcases passEnclosed_one_eq_some_iff.1 found with
    ⟨front, rfl, -, inLine, closes⟩
  refine endless ⟨0x28 :: front, prefix_restOfLine_iff.2 ⟨?_, ?_⟩,
    closes.nonempty, closes.closed⟩
  · exact List.prefix_append _ _
  · simpa [lineFeed] using inLine

/-! ## Asking for values -/

section

variable {m : Type → Type} [Monad m] (evaluate : EvaluatorIn m) (line : Int)
  {rest formula after : Text}

/-- Where a formula starts, nothing else is read. -/
theorem scanTokenIn_dollar (rest : Text) :
    scanTokenIn (some evaluate) line (0x24 :: 0x28 :: rest) =
      computeFront line (readFormula evaluate line rest) :=
  rfl

theorem scanTokenIn_of_found
    (found : passEnclosed 1 [] rest =
      some (0x29 :: formula.reverse, after)) :
    scanTokenIn (some evaluate) line (0x24 :: 0x28 :: rest) = do
      let answer ← evaluate formula line
      return formulaOutcome line (formulaText formula) after answer := by
  rw [scanTokenIn_dollar, readFormula, found]
  simp only [computeFront, List.drop_succ_cons, List.drop_zero,
    List.reverse_reverse, reverse_closed]

theorem scanTokenIn_of_missing (missing : passEnclosed 1 [] rest = none) :
    scanTokenIn (some evaluate) line (0x24 :: 0x28 :: rest) =
      pure (.error (.illegalCharacter line 0x24)) := by
  rw [scanTokenIn_dollar, readFormula, missing]
  rfl

end

/--
A formula ends where the automaton first has nothing open, if it gets there
on the line, and is then computed once; else `$` does not belong there.
-/
theorem scanToken_formula (line : Int) (rest : Text) :
    (Nesting.Ends (restOfLine (0x28 :: rest)) →
      ∃ formula after,
        0x24 :: 0x28 :: rest = formulaText formula ++ after ∧
        0x28 :: formula ++ [0x29] <+: restOfLine (0x28 :: rest) ∧
        Nesting.outside.Closes (0x28 :: formula ++ [0x29]) ∧
        (∀ evaluate : Evaluator,
          scanToken (some evaluate) line (0x24 :: 0x28 :: rest) =
            formulaOutcome line (formulaText formula) after
              (evaluate formula line)) ∧
        ∀ (m : Type → Type) [Monad m] (evaluate : EvaluatorIn m),
          scanTokenIn (some evaluate) line (0x24 :: 0x28 :: rest) = do
            let answer ← evaluate formula line
            return formulaOutcome line (formulaText formula) after answer) ∧
    (¬ Nesting.Ends (restOfLine (0x28 :: rest)) →
      (∀ evaluate : Evaluator,
        scanToken (some evaluate) line (0x24 :: 0x28 :: rest) =
          .error (.illegalCharacter line 0x24)) ∧
      ∀ (m : Type → Type) [Monad m] (evaluate : EvaluatorIn m),
        scanTokenIn (some evaluate) line (0x24 :: 0x28 :: rest) =
          pure (.error (.illegalCharacter line 0x24))) := by
  constructor
  · intro ends
    rcases passEnclosed_of_ends ends with
      ⟨formula, after, split, onLine, closes, found⟩
    refine ⟨formula, after, by simp [split, formulaText], onLine, closes,
      fun evaluate => ?_,
      fun m _ evaluate => scanTokenIn_of_found evaluate line found⟩
    exact scanTokenIn_of_found (m := Id) evaluate line found
  · intro endless
    have missing := passEnclosed_of_not_ends endless
    refine ⟨fun evaluate => ?_,
      fun m _ evaluate => scanTokenIn_of_missing evaluate line missing⟩
    exact scanTokenIn_of_missing (m := Id) evaluate line missing

/-- Parentheses in literals do not count, and a literal may be left open. -/
theorem nestedLiterals_formula :
    (Nesting.Ends (restOfLine (Text.ascii "((\")\"+'\\'')*2),x")) ∧
      ∃ formula after,
        Text.ascii "$((\")\"+'\\'')*2),x" = formulaText formula ++ after ∧
        ∀ evaluate : Evaluator,
          scanToken (some evaluate) 3
              (Text.ascii "$((\")\"+'\\'')*2),x") =
            formulaOutcome 3 (formulaText formula) after
              (evaluate formula 3)) ∧
    ¬ Nesting.Ends (restOfLine (Text.ascii "(\"\\\")\n)")) ∧
      ∀ evaluate : Evaluator,
        scanToken (some evaluate) 3 (Text.ascii "$(\"\\\")\n)") =
          .error (.illegalCharacter 3 0x24) := by
  have ends : Nesting.Ends
      (restOfLine (Text.ascii "((\")\"+'\\'')*2),x")) := by
    decide +kernel
  have endless : ¬ Nesting.Ends
      (restOfLine (Text.ascii "(\"\\\")\n)")) := by
    decide +kernel
  rcases (scanToken_formula 3 (Text.ascii "(\")\"+'\\'')*2),x")).1 ends with
    ⟨formula, after, whole, -, -, read, -⟩
  refine ⟨⟨ends, formula, after, whole, read⟩, endless, ?_⟩
  exact ((scanToken_formula 3 (Text.ascii "\"\\\")\n)")).2 endless).1

end FlatAsm.Token
