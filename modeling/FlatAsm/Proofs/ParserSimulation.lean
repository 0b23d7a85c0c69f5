import FlatAsm.Proofs.ArgumentGrammar
import FlatAsm.Proofs.LineScanning

/-!
# Parsing the same line in two places

A statement is parsed from the tokens of its line and the line end after it,
and no step looks any further.  So two places in two token streams give the
same result if the tokens up to the next line end are the same, even if they
have been read from different lines: then the lines in the result differ in
the same way.

What is known of the two places at the line end is a parameter.  The
relation is handed through parsing, so that it is there for the statements
that follow.
-/

namespace FlatAsm

/-! ## Shifted lines -/

/-- The instruction after more lines. -/
def Instruction.shift (lines : Int) (instruction : Instruction) :
    Instruction :=
  { instruction with line := instruction.line + lines }

/-- The statement after more lines. -/
def Item.shift (lines : Int) : Item → Item
  | .label line name => .label (line + lines) name
  | .instruction content => .instruction (content.shift lines)

@[simp]
theorem Item.shift_zero : Item.shift 0 = id := by
  funext item
  cases item <;> simp [shift, Instruction.shift]

/--
Two tokens that mean the same, with `lines` between them.

Of a line end only the first line matters, not how many there are.
-/
structure Token.Alike (lines : Int) (token other : Token) : Prop where
  kind : other.kind = token.kind
  line : other.line = token.line + lines
  text : token.endsStatement = false → other.text = token.text

namespace Token.Alike

variable {lines : Int} {token other : Token}
  (alike : Token.Alike lines token other)

include alike

theorem isMark_eq (mark : Mark) : other.isMark mark = token.isMark mark := by
  rw [isMark, isMark, alike.kind]

theorem endsStatement_eq : other.endsStatement = token.endsStatement := by
  rw [endsStatement, endsStatement, alike.kind]

theorem shown_eq : other.shown = token.shown := by
  cases ends : token.endsStatement with
  | true =>
      rcases Parse.endsStatement_iff.1 ends with kind | kind <;>
        simp [shown, alike.kind, kind]
  | false => simp [shown, alike.kind, alike.text ends]

theorem partValue?_eq (constants : Table Int64) :
    Parse.partValue? constants other =
      Parse.partValue? constants token := by
  rw [Parse.partValue?, Parse.partValue?, alike.kind]
  cases kind : token.kind
  case identifier => rw [alike.text (by simp [endsStatement, kind])]
  all_goals rfl

theorem joinPart?_eq : Parse.joinPart? other = Parse.joinPart? token := by
  unfold Parse.joinPart?
  rw [alike.kind]

end Token.Alike

/-! ## Two places -/

/--
Places with the same tokens up to the next line end or error.

`atEnd` says what else is known where a line ends.
-/
inductive Cursor.Agree (lines : Int) (atEnd : Cursor → Cursor → Prop) :
    Cursor → Cursor → Prop where
  | ended {cursor other : Cursor}
      (alike : Token.Alike lines cursor.current other.current)
      (ends : cursor.current.endsStatement = true)
      (known : atEnd cursor other) : Agree lines atEnd cursor other
  | failed {cursor other after otherAfter : Cursor} {fault : Error}
      (alike : Token.Alike lines cursor.current other.current)
      (inside : cursor.current.endsStatement = false)
      (failure : Parse.advance cursor = .error fault after)
      (otherFailure :
        Parse.advance other = .error (fault.shift lines) otherAfter) :
      Agree lines atEnd cursor other
  | moved {cursor other after otherAfter : Cursor}
      (alike : Token.Alike lines cursor.current other.current)
      (inside : cursor.current.endsStatement = false)
      (move : Parse.advance cursor = .ok () after)
      (otherMove : Parse.advance other = .ok () otherAfter)
      (later : Agree lines atEnd after otherAfter) :
      Agree lines atEnd cursor other

namespace Cursor.Agree

variable {lines : Int} {atEnd : Cursor → Cursor → Prop}
  {cursor other : Cursor}

theorem current (agree : Agree lines atEnd cursor other) :
    Token.Alike lines cursor.current other.current := by
  cases agree <;> assumption

theorem known (agree : Agree lines atEnd cursor other)
    (ends : cursor.current.endsStatement = true) :
    atEnd cursor other := by
  cases agree with
  | ended _ _ known => exact known
  | failed _ inside => cases ends.symm.trans inside
  | moved _ inside => cases ends.symm.trans inside

end Cursor.Agree

namespace Parse

theorem endsStatement_of_partValue? {constants : Table Int64} {token : Token}
    {value : SymInt} (found : partValue? constants token = some value) :
    token.endsStatement = false := by
  rw [partValue?] at found
  cases kind : token.kind <;> rw [kind] at found
  case integer => simp [Token.endsStatement, kind]
  case identifier => simp [Token.endsStatement, kind]
  all_goals cases found

theorem endsStatement_of_isMark {token : Token} {mark : Mark}
    (found : token.isMark mark = true) : token.endsStatement = false := by
  rw [isMark_iff] at found
  simp [Token.endsStatement, found]

theorem endsStatement_of_joinPart? {token : Token}
    {join : SymInt → SymInt → SymInt}
    (found : joinPart? token = some join) :
    token.endsStatement = false := by
  cases ends : token.endsStatement with
  | false => rfl
  | true =>
      rw [joinPart?_of_endsStatement ends] at found
      cases found

/-- Results that correspond: related values, or the same error. -/
inductive Matches (lines : Int) (atEnd : Cursor → Cursor → Prop)
    {α β : Type} (related : α → β → Prop) :
    EStateM.Result Error Cursor α → EStateM.Result Error Cursor β →
      Prop where
  | ok {value : α} {other : β} {cursor cursor' : Cursor}
      (values : related value other)
      (agree : Cursor.Agree lines atEnd cursor cursor') :
      Matches lines atEnd related (.ok value cursor) (.ok other cursor')
  | error {fault : Error} {cursor cursor' : Cursor} :
      Matches lines atEnd related (.error fault cursor)
        (.error (fault.shift lines) cursor')

/-- Two steps, each at its place, have results that correspond. -/
def Simulates (lines : Int) (atEnd : Cursor → Cursor → Prop) {α β : Type}
    (related : α → β → Prop) (cursor other : Cursor) (parse : Parse α)
    (parse' : Parse β) : Prop :=
  Matches lines atEnd related (parse cursor) (parse' other)

variable {lines : Int} {atEnd : Cursor → Cursor → Prop}
  {cursor other : Cursor} {α β γ δ : Type}

theorem Simulates.bind {related : α → β → Prop} {related' : γ → δ → Prop}
    {first : Parse α} {first' : Parse β} {next : α → Parse γ}
    {next' : β → Parse δ}
    (step : Simulates lines atEnd related cursor other first first')
    (further : ∀ {value value' middle middle'},
      first cursor = .ok value middle → related value value' →
        Cursor.Agree lines atEnd middle middle' →
          Simulates lines atEnd related' middle middle' (next value)
            (next' value')) :
    Simulates lines atEnd related' cursor other (first >>= next)
      (first' >>= next') := by
  unfold Simulates at step ⊢
  generalize result : first cursor = outcome at step
  generalize result' : first' other = outcome' at step
  cases step with
  | ok values agree =>
      rw [bind_of_ok result, bind_of_ok result']
      exact further result values agree
  | error =>
      rw [bind_of_error result, bind_of_error result']
      exact .error

theorem Simulates.bindSame {related : γ → δ → Prop} {first : Parse α}
    {next : α → Parse γ} {next' : α → Parse δ}
    (step : Simulates lines atEnd Eq cursor other first first)
    (further : ∀ {value middle middle'},
      first cursor = .ok value middle →
        Cursor.Agree lines atEnd middle middle' →
          Simulates lines atEnd related middle middle' (next value)
            (next' value)) :
    Simulates lines atEnd related cursor other (first >>= next)
      (first >>= next') := by
  refine step.bind ?_
  rintro value _ middle middle' found rfl agree
  exact further found agree

theorem simulates_throw (related : α → β → Prop) (fault : Error) :
    Simulates lines atEnd related cursor other (throw fault)
      (throw (fault.shift lines)) :=
  .error

section

variable (agree : Cursor.Agree lines atEnd cursor other)

include agree

theorem simulates_pure {related : α → β → Prop} {value : α} {value' : β}
    (values : related value value') :
    Simulates lines atEnd related cursor other (pure value)
      (pure value') :=
  .ok values agree

theorem simulates_current {related : α → β → Prop}
    {next : Token → Parse α} {next' : Token → Parse β}
    (further : Token.Alike lines cursor.current other.current →
      Simulates lines atEnd related cursor other (next cursor.current)
        (next' other.current)) :
    Simulates lines atEnd related cursor other (current >>= next)
      (current >>= next') :=
  further agree.current

theorem simulates_advance (inside : cursor.current.endsStatement = false) :
    Simulates lines atEnd Eq cursor other advance advance := by
  unfold Simulates
  cases agree with
  | ended _ ends => cases ends.symm.trans inside
  | failed _ _ failure otherFailure =>
      rw [failure, otherFailure]
      exact .error
  | moved _ _ move otherMove later =>
      rw [move, otherMove]
      exact .ok rfl later

theorem simulates_unexpected (related : α → β → Prop) :
    Simulates lines atEnd related cursor other unexpected unexpected := by
  unfold Simulates unexpected
  rw [agree.current.line, agree.current.shown_eq]
  exact .error

theorem simulates_expect (mark : Mark) :
    Simulates lines atEnd Eq cursor other (expect mark) (expect mark) := by
  refine simulates_current agree fun alike => ?_
  rw [alike.isMark_eq]
  split
  · next found =>
    exact simulates_advance agree (endsStatement_of_isMark found)
  · exact simulates_unexpected agree Eq

/-! ### Expressions -/

theorem simulates_moveWith (value : SymInt)
    (inside : cursor.current.endsStatement = false) :
    Simulates lines atEnd Eq cursor other (moveWith value)
      (moveWith value) :=
  (simulates_advance agree inside).bindSame fun _ agree =>
    simulates_pure agree rfl

theorem simulates_signedPart (constants : Table Int64)
    (negative : Bool) :
    Simulates lines atEnd Eq cursor other (signedPart constants negative)
      (signedPart constants negative) := by
  induction size : cursor.remaining using Nat.strongRecOn
    generalizing negative cursor other with
  | ind size inductionHypothesis =>
  subst size
  rw [signedPart_eq]
  refine simulates_current agree fun alike => ?_
  rw [alike.partValue?_eq, alike.isMark_eq]
  split
  · next found =>
    exact simulates_moveWith agree _ (endsStatement_of_partValue? found)
  · split
    · next minus =>
      refine (simulates_advance agree
        (endsStatement_of_isMark minus)).bindSame fun moved agree => ?_
      exact inductionHypothesis _
        (advance_remaining_lt moved (inside_of_isMark minus)) agree _ rfl
    · exact simulates_unexpected agree Eq

theorem simulates_furtherParts (constants : Table Int64)
    (value : SymInt) :
    Simulates lines atEnd Eq cursor other (furtherParts constants value)
      (furtherParts constants value) := by
  induction size : cursor.remaining using Nat.strongRecOn
    generalizing value cursor other with
  | ind size inductionHypothesis =>
  subst size
  rw [furtherParts_eq]
  refine simulates_current agree fun alike => ?_
  rw [alike.joinPart?_eq]
  split
  · exact simulates_pure agree rfl
  · next join sign =>
    refine (simulates_advance agree
      (endsStatement_of_joinPart? sign)).bindSame fun moved agree => ?_
    refine (simulates_signedPart agree constants false).bindSame
      fun found agree => ?_
    refine inductionHypothesis _ ?_ agree _ rfl
    exact Nat.lt_of_le_of_lt (signedPart_neverGrows _ _ found)
      (advance_remaining_lt moved (inside_of_joinPart? sign))

theorem simulates_expression (constants : Table Int64) :
    Simulates lines atEnd Eq cursor other (expression constants)
      (expression constants) :=
  (simulates_signedPart agree constants false).bindSame fun _ agree =>
    simulates_furtherParts agree constants _

/-! ### Arguments -/

theorem simulates_closeBracket (operand : Operand) :
    Simulates lines atEnd Eq cursor other
      (expect .closeBracket >>= fun _ => pure operand)
      (expect .closeBracket >>= fun _ => pure operand) :=
  (simulates_expect agree .closeBracket).bindSame fun _ agree =>
    simulates_pure agree rfl

theorem simulates_addressInside (constants : Table Int64) :
    Simulates lines atEnd Eq cursor other (addressInside constants)
      (addressInside constants) := by
  refine simulates_current agree fun alike => ?_
  rw [alike.kind]
  split
  · next pointer kind =>
    refine (simulates_advance agree
      (Grammar.inside_of_kind kind nofun nofun)).bindSame
        fun _ agree => ?_
    refine simulates_current agree fun alike => ?_
    rw [alike.isMark_eq]
    split
    · next close =>
      exact (simulates_advance agree
        (endsStatement_of_isMark close)).bindSame
          fun _ agree => simulates_pure agree rfl
    · refine (simulates_expect agree .colon).bindSame fun _ agree => ?_
      exact (simulates_expression agree constants).bindSame
        fun _ agree => simulates_closeBracket agree _
  · refine (simulates_expression agree constants).bindSame
      fun _ agree => ?_
    refine (simulates_expect agree .colon).bindSame fun _ agree => ?_
    refine simulates_current agree fun alike => ?_
    rw [alike.kind]
    split
    · next pointer kind =>
      exact (simulates_advance agree
        (Grammar.inside_of_kind kind nofun nofun)).bindSame
          fun _ agree => simulates_closeBracket agree _
    · exact simulates_unexpected agree Eq

theorem simulates_argument (constants : Table Int64) :
    Simulates lines atEnd Eq cursor other (argument constants)
      (argument constants) := by
  refine simulates_current agree fun alike => ?_
  rw [alike.kind]
  split
  · next kind =>
    have inside : cursor.current.endsStatement = false :=
      Grammar.inside_of_kind kind nofun nofun
    rw [alike.text inside]
    exact (simulates_advance agree inside).bindSame
      fun _ agree => simulates_pure agree rfl
  · next register kind =>
    exact (simulates_advance agree
      (Grammar.inside_of_kind kind nofun nofun)).bindSame
        fun _ agree => simulates_pure agree rfl
  · next kind =>
    have address : Simulates lines atEnd Eq cursor other
        (address constants) (address constants) :=
      (simulates_advance agree
        (Grammar.inside_of_kind kind nofun nofun)).bindSame
          fun _ agree => simulates_addressInside agree constants
    exact address.bindSame fun _ agree => simulates_pure agree rfl
  · exact (simulates_expression agree constants).bindSame
      fun _ agree => simulates_pure agree rfl

theorem simulates_argumentsOnto (constants : Table Int64)
    (reversed : List Argument) :
    Simulates lines atEnd Eq cursor other
      (argumentsOnto constants reversed)
      (argumentsOnto constants reversed) := by
  induction size : cursor.remaining using Nat.strongRecOn
    generalizing reversed cursor other with
  | ind size inductionHypothesis =>
  subst size
  rw [argumentsOnto_eq]
  refine (simulates_argument agree constants).bindSame
    fun found agree => ?_
  refine simulates_current agree fun alike => ?_
  rw [alike.isMark_eq]
  split
  · next comma =>
    refine (simulates_advance agree
      (endsStatement_of_isMark comma)).bindSame fun moved agree => ?_
    refine inductionHypothesis _ ?_ agree _ rfl
    exact Nat.lt_of_lt_of_le
      (advance_remaining_lt moved (inside_of_isMark comma))
      (argument_neverGrows _ found)
  · exact simulates_pure agree rfl

theorem simulates_arguments (constants : Table Int64) :
    Simulates lines atEnd Eq cursor other (arguments constants)
      (arguments constants) := by
  refine simulates_current agree fun alike => ?_
  rw [alike.endsStatement_eq]
  split
  · exact simulates_pure agree rfl
  · exact simulates_argumentsOnto agree constants []

/-! ### Statements -/

theorem simulates_label (inside : cursor.current.endsStatement = false) :
    Simulates lines atEnd (fun item item' => item' = item.shift lines)
      cursor other label label := by
  refine simulates_current agree fun dots => ?_
  rw [dots.line]
  refine (simulates_advance agree inside).bindSame fun _ agree => ?_
  refine simulates_current agree fun alike => ?_
  rw [alike.kind, alike.shown_eq]
  split
  · next kind =>
    have inside := Grammar.inside_of_kind kind nofun nofun
    rw [alike.text inside]
    exact (simulates_advance agree inside).bindSame
      fun _ agree => simulates_pure agree rfl
  · exact simulates_throw _ _

theorem simulates_timesCount (constants : Table Int64)
    (mnemonic : Mnemonic) :
    Simulates lines atEnd Eq cursor other (timesCount constants mnemonic)
      (timesCount constants mnemonic) := by
  unfold timesCount
  split
  · refine (simulates_expression agree constants).bindSame
      fun _ agree => ?_
    exact (simulates_expect agree .comma).bindSame
      fun _ agree => simulates_pure agree rfl
  · exact simulates_pure agree rfl

theorem simulates_instruction (width : Width) (constants : Table Int64)
    (mnemonic : Mnemonic)
    (inside : cursor.current.endsStatement = false) :
    Simulates lines atEnd (fun item item' => item' = item.shift lines)
      cursor other (instruction width constants mnemonic)
      (instruction width constants mnemonic) := by
  refine simulates_current agree fun keyword => ?_
  rw [keyword.line]
  refine (simulates_advance agree inside).bindSame fun _ agree => ?_
  refine (simulates_timesCount agree constants mnemonic).bindSame
    @fun count _ _ _ agree => ?_
  refine (simulates_arguments agree constants).bindSame
    @fun parsed _ _ _ agree => ?_
  cases Operation.ofArguments width mnemonic count parsed with
  | ok operation => exact simulates_pure agree rfl
  | error cause => exact simulates_throw _ _

theorem simulates_complete (item : Item) :
    Simulates lines atEnd
      (fun found found' => found' = found.map (Item.shift lines))
      cursor other (complete item) (complete (item.shift lines)) := by
  refine simulates_current agree fun alike => ?_
  rw [alike.endsStatement_eq]
  split
  · exact simulates_pure agree rfl
  · exact simulates_unexpected agree _

/-- A statement is parsed from its line alone. -/
theorem simulates_statementHere (width : Width)
    (constants : Table Int64) :
    Simulates lines atEnd
      (fun found found' => found' = found.map (Item.shift lines))
      cursor other (statementHere width constants)
      (statementHere width constants) := by
  unfold Simulates statementHere
  rw [agree.current.kind]
  split
  · exact .ok rfl agree
  · next kind =>
    refine (simulates_label agree
      (Grammar.inside_of_kind kind nofun nofun)).bind ?_
    rintro item _ middle middle' _ rfl agree
    exact simulates_complete agree item
  · next mnemonic kind =>
    refine (simulates_instruction agree width constants mnemonic
      (Grammar.inside_of_kind kind nofun nofun)).bind ?_
    rintro item _ middle middle' _ rfl agree
    exact simulates_complete agree item
  · exact simulates_unexpected agree _

end

end Parse

end FlatAsm
