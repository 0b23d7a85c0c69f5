import FlatAsm.Text

/-!
# Text in parentheses

A formula extends to the parenthesis that closes it on the same line.
Parentheses inside string literals do not count, and inside such a literal a
backslash takes the next byte with it.

Both functions below move bytes from the text to a reversed list of the
bytes already passed.  They fail where the line ends first.
-/

namespace FlatAsm.Token

/-- The byte that ends a line. -/
def lineFeed : UInt8 := 0x0a

/-- Pass the rest of a string literal up to and including its quote. -/
def passLiteral (quote : UInt8) (passed : Text) :
    Text → Option (Text × Text)
  | [] => none
  | byte :: rest =>
      if byte = lineFeed then none
      else if byte = 0x5c then
        match rest with
        | [] => none
        | escaped :: after =>
            if escaped = lineFeed then none
            else passLiteral quote (escaped :: byte :: passed) after
      else if byte = quote then some (byte :: passed, rest)
      else passLiteral quote (byte :: passed) rest

/-- What is passed of a literal and what is left make up the text. -/
theorem passLiteral_eq_some {quote : UInt8} {passed text : Text}
    {passed' rest : Text}
    (result : passLiteral quote passed text = some (passed', rest)) :
    ∃ front, front ≠ [] ∧ text = front ++ rest ∧
      passed' = front.reverse ++ passed := by
  fun_induction passLiteral quote passed text with
  | case1 => simp at result
  | case2 => simp at result
  | case3 => simp at result
  | case4 => simp at result
  | case5 passed escaped after _ _ inductionHypothesis =>
      obtain ⟨front, _, rfl, rfl⟩ := inductionHypothesis result
      exact ⟨0x5c :: escaped :: front, by simp, by simp, by simp⟩
  | case6 passed remaining =>
      simp only [Option.some.injEq, Prod.mk.injEq] at result
      obtain ⟨rfl, rfl⟩ := result
      exact ⟨[quote], by simp, by simp, by simp⟩
  | case7 passed byte _ _ _ _ inductionHypothesis =>
      obtain ⟨front, _, rfl, rfl⟩ := inductionHypothesis result
      exact ⟨byte :: front, by simp, by simp, by simp⟩

/-- A literal takes at least its closing quote. -/
theorem passLiteral_length_lt {quote : UInt8} {passed text : Text}
    {passed' rest : Text}
    (result : passLiteral quote passed text = some (passed', rest)) :
    rest.length < text.length := by
  obtain ⟨front, nonempty, rfl, _⟩ := passLiteral_eq_some result
  have := List.length_pos_iff.2 nonempty
  simp only [List.length_append]
  omega

/-- Pass text up to the parenthesis that closes the `depth` open ones. -/
def passEnclosed (depth : Nat) (passed : Text) (text : Text) :
    Option (Text × Text) :=
  match text with
  | [] => none
  | byte :: rest =>
      if byte = lineFeed then none
      else if byte = 0x28 then
        passEnclosed (depth + 1) (byte :: passed) rest
      else if byte = 0x29 then
        if depth ≤ 1 then some (byte :: passed, rest)
        else passEnclosed (depth - 1) (byte :: passed) rest
      else if byte = 0x22 ∨ byte = 0x27 then
        match _literal : passLiteral byte (byte :: passed) rest with
        | none => none
        | some (passed', rest') => passEnclosed depth passed' rest'
      else passEnclosed depth (byte :: passed) rest
termination_by text.length
decreasing_by
  all_goals
    first
    | exact Nat.lt_succ_of_lt (passLiteral_length_lt _literal)
    | exact Nat.lt_succ_self _

end FlatAsm.Token
