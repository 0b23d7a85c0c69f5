import FlatAsm.Token.Scan

/-!
# A place in a token stream

A parser looks at one token at a time.  Moving on delivers the next token of
the stream; where the stream ends in an error it delivers that error, once,
and after its end there is nothing but the end of the text.

Parsing a part of a statement keeps the place it has reached, also when it
fails, so that reading can go on after an error.
-/

namespace FlatAsm

/-- The current token and what follows it. -/
structure Cursor where
  current : Token
  upcoming : List Token
  fault : Option Error
  deriving DecidableEq, Repr

/-- A step of parsing. -/
abbrev Parse (α : Type) := EStateM Error Cursor α

namespace Cursor

/-- Before the first token of a stream. -/
def ofStream (stream : TokenStream) : Cursor where
  current := ⟨.endOfText, 0, []⟩
  upcoming := stream.tokens
  fault := stream.fault

/-- The same place in a stream that ends here. -/
def close (cursor : Cursor) : Cursor :=
  { cursor with upcoming := [], fault := none }

/-- How many tokens can still be moved past. -/
def remaining (cursor : Cursor) : Nat :=
  cursor.upcoming.length + if cursor.current.kind = .endOfText then 0 else 1

end Cursor

namespace Parse

/-- Move on to the next token. -/
def advance : Parse Unit := fun cursor =>
  match cursor.upcoming, cursor.fault with
  | token :: rest, _ =>
      .ok () { cursor with current := token, upcoming := rest }
  | [], some fault => .error fault { cursor with fault := none }
  | [], none =>
      .ok () { cursor with current := ⟨.endOfText, cursor.current.line, []⟩ }

/-- The current token. -/
def current : Parse Token := fun cursor =>
  .ok cursor.current cursor

/-- Fail at the current token. -/
def unexpected {α : Type} : Parse α := fun cursor =>
  .error
    (.malformed cursor.current.line cursor.current.shown .tokenUnexpected)
    cursor

/-- Move past a mark, which has to be there. -/
def expect (mark : Mark) : Parse Unit := do
  if (← current).isMark mark then advance else unexpected

/-- Success leaves no more tokens than there were. -/
def NeverGrows {α : Type} (parse : Parse α) : Prop :=
  ∀ {cursor cursor' : Cursor} {result : α},
    parse cursor = .ok result cursor' →
      cursor'.remaining ≤ cursor.remaining

/-- Moving past a token leaves fewer. -/
theorem advance_remaining_lt {cursor cursor' : Cursor}
    (moved : advance cursor = .ok () cursor')
    (inside : cursor.current.kind ≠ .endOfText) :
    cursor'.remaining < cursor.remaining := by
  unfold advance at moved
  split at moved <;> cases moved
  · next token rest _ upcoming =>
    simp only [Cursor.remaining, upcoming, List.length_cons, inside,
      if_false]
    split <;> omega
  · next upcoming _ =>
    simp [Cursor.remaining, upcoming, inside]

theorem advance_neverGrows : NeverGrows advance := by
  intro cursor cursor' _ moved
  unfold advance at moved
  split at moved <;> cases moved
  · next token rest _ upcoming =>
    simp only [Cursor.remaining, upcoming, List.length_cons]
    split <;> split <;> omega
  · next upcoming _ =>
    simp [Cursor.remaining, upcoming]

theorem pure_neverGrows {α : Type} (value : α) :
    NeverGrows (pure value : Parse α) := by
  intro cursor cursor' result done
  cases done
  exact Nat.le_refl _

theorem current_neverGrows : NeverGrows current := by
  intro cursor cursor' result done
  cases done
  exact Nat.le_refl _

theorem unexpected_neverGrows {α : Type} :
    NeverGrows (unexpected : Parse α) := by
  intro cursor cursor' result done
  cases done

theorem bind_neverGrows {α β : Type} {first : Parse α}
    {next : α → Parse β} (firstStep : NeverGrows first)
    (nextStep : ∀ value, NeverGrows (next value)) :
    NeverGrows (first >>= next) := by
  intro cursor cursor' result done
  simp only [bind, EStateM.bind] at done
  split at done
  · next value middle found =>
    exact Nat.le_trans (nextStep value done) (firstStep found)
  · cases done

theorem ite_neverGrows {α : Type} {condition : Prop}
    [Decidable condition] {yes no : Parse α}
    (whenYes : NeverGrows yes) (whenNo : NeverGrows no) :
    NeverGrows (if condition then yes else no) := by
  split
  · exact whenYes
  · exact whenNo

theorem expect_neverGrows (mark : Mark) : NeverGrows (expect mark) :=
  bind_neverGrows current_neverGrows fun _ =>
    ite_neverGrows advance_neverGrows unexpected_neverGrows

end Parse

end FlatAsm
