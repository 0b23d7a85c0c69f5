import FlatAsm.Parser.Argument

/-!
# Single steps of parsing

What a sequence of steps does is said here in terms of its first step.  The
loops of the expression and argument parsers are defined by recursion on the
tokens that are left; each of them is also one turn followed by the loop.
-/

namespace FlatAsm.Parse

variable {α β : Type}

theorem bind_of_ok {first : Parse α} {next : α → Parse β}
    {cursor after : Cursor} {value : α}
    (found : first cursor = .ok value after) :
    (first >>= next) cursor = next value after := by
  simp [bind, EStateM.bind, found]

theorem bind_of_error {first : Parse α} {next : α → Parse β}
    {cursor after : Cursor} {fault : Error}
    (failed : first cursor = .error fault after) :
    (first >>= next) cursor = .error fault after := by
  simp [bind, EStateM.bind, failed]

theorem bind_ok_iff {first : Parse α} {next : α → Parse β}
    {cursor after : Cursor} {result : β} :
    (first >>= next) cursor = .ok result after ↔
      ∃ value middle, first cursor = .ok value middle ∧
        next value middle = .ok result after := by
  cases found : first cursor with
  | ok value middle =>
      rw [bind_of_ok found]
      constructor
      · intro done
        exact ⟨value, middle, rfl, done⟩
      · rintro ⟨_, _, ⟨⟩, done⟩
        exact done
  | error fault middle =>
      rw [bind_of_error found]
      constructor
      · rintro ⟨⟩
      · rintro ⟨_, _, ⟨⟩, _⟩

theorem current_bind (next : Token → Parse β) (cursor : Cursor) :
    (current >>= next) cursor = next cursor.current cursor :=
  rfl

/-- What follows a step matters only where that step can lead. -/
theorem bind_congr_at {first : Parse α} {next next' : α → Parse β}
    {cursor : Cursor}
    (same : ∀ value after, first cursor = .ok value after →
      next value after = next' value after) :
    (first >>= next) cursor = (first >>= next') cursor := by
  cases found : first cursor with
  | ok value after =>
      rw [bind_of_ok found, bind_of_ok found, same value after found]
  | error fault after => rw [bind_of_error found, bind_of_error found]

/-! ## Loops, one turn at a time -/

theorem signedPart_eq (constants : Table Int64) (negative : Bool) :
    signedPart constants negative =
      (do
        let token ← current
        match partValue? constants token with
        | some value => moveWith (signed negative value)
        | none =>
            if token.isMark .minus then
              advance
              signedPart constants (!negative)
            else unexpected) := by
  funext cursor
  rw [signedPart, current_bind]
  split
  · next found => rw [found]
  · next absent =>
    rw [absent]
    dsimp only
    split
    · split
      · next moved => rw [bind_of_error moved]
      · next moved => rw [bind_of_ok moved]
    · rfl

theorem furtherParts_eq (constants : Table Int64) (value : SymInt) :
    furtherParts constants value =
      (do
        match joinPart? (← current) with
        | none => return value
        | some join =>
            advance
            let part ← signedPart constants false
            furtherParts constants (join value part)) := by
  funext cursor
  rw [furtherParts, current_bind]
  split
  · next ended =>
    rw [ended]
    rfl
  · next join sign =>
    rw [sign]
    dsimp only
    split
    · next moved => rw [bind_of_error moved]
    · next moved =>
      rw [bind_of_ok moved]
      split
      · next failed => rw [bind_of_error failed]
      · next found => rw [bind_of_ok found]

theorem argumentsOnto_eq (constants : Table Int64)
    (reversed : List Argument) :
    argumentsOnto constants reversed =
      (do
        let parsed ← argument constants
        if (← current).isMark .comma then
          advance
          argumentsOnto constants (parsed :: reversed)
        else return (parsed :: reversed).reverse) := by
  funext cursor
  rw [argumentsOnto]
  split
  · next failed => rw [bind_of_error failed]
  · next found =>
    rw [bind_of_ok found, current_bind]
    split
    · split
      · next moved => rw [bind_of_error moved]
      · next moved => rw [bind_of_ok moved]
    · rfl

end FlatAsm.Parse
