import FlatAsm.Parser.Statement
import FlatAsm.Proofs.ParserSteps

/-!
# Invariants of parsing

All that parsing does to its place in a token stream is to move on.  So what
moving on keeps is kept by every step of parsing, and by those that fail too.
-/

namespace FlatAsm.Parse

variable {α β : Type} {invariant : Cursor → Prop}

/-- The invariant still holds at the place that the step leads to, whether it
succeeds or fails. -/
def Preserves (invariant : Cursor → Prop) (parse : Parse α) : Prop :=
  ∀ cursor, invariant cursor →
    match parse cursor with
    | .ok _ after => invariant after
    | .error _ after => invariant after

theorem Preserves.ok {parse : Parse α}
    (preserves : Preserves invariant parse) {cursor after : Cursor} {value : α}
    (found : parse cursor = .ok value after) (known : invariant cursor) :
    invariant after := by
  have kept := preserves cursor known
  rw [found] at kept
  exact kept

theorem Preserves.error {parse : Parse α}
    (preserves : Preserves invariant parse) {cursor after : Cursor}
    {fault : Error} (failed : parse cursor = .error fault after)
    (known : invariant cursor) : invariant after := by
  have kept := preserves cursor known
  rw [failed] at kept
  exact kept

/-! ## Steps that do not move on -/

theorem pure_preserves (value : α) :
    Preserves invariant (pure value : Parse α) :=
  fun _ known => known

theorem throw_preserves (fault : Error) :
    Preserves invariant (throw fault : Parse α) :=
  fun _ known => known

theorem current_preserves : Preserves invariant current :=
  fun _ known => known

theorem unexpected_preserves : Preserves invariant (unexpected : Parse α) :=
  fun _ known => known

theorem bind_preserves {first : Parse α} {next : α → Parse β}
    (firstStep : Preserves invariant first)
    (nextStep : ∀ value, Preserves invariant (next value)) :
    Preserves invariant (first >>= next) := by
  intro cursor known
  cases found : first cursor with
  | ok value middle =>
      rw [bind_of_ok found]
      exact nextStep value middle (firstStep.ok found known)
  | error fault middle =>
      rw [bind_of_error found]
      exact firstStep.error found known

theorem ite_preserves {condition : Prop} [Decidable condition]
    {yes no : Parse α} (whenYes : Preserves invariant yes)
    (whenNo : Preserves invariant no) :
    Preserves invariant (if condition then yes else no) := by
  split
  · exact whenYes
  · exact whenNo

theorem complete_preserves (item : Item) :
    Preserves invariant (complete item) :=
  bind_preserves current_preserves fun _ =>
    ite_preserves (pure_preserves _) unexpected_preserves

theorem liftOperation_preserves (line : Int) (mnemonic : Mnemonic)
    (outcome : Except Cause Operation) :
    Preserves invariant (liftOperation line mnemonic outcome) := by
  cases outcome with
  | ok => exact pure_preserves _
  | error => exact throw_preserves _

/-! ## Steps that move on -/

section

variable (step : Preserves invariant advance)

include step

theorem expect_preserves (mark : Mark) : Preserves invariant (expect mark) :=
  bind_preserves current_preserves fun _ =>
    ite_preserves step unexpected_preserves

theorem moveWith_preserves (value : SymInt) :
    Preserves invariant (moveWith value) :=
  bind_preserves step fun _ => pure_preserves _

variable (constants : Table Int64)

theorem signedPart_preserves (negative : Bool) :
    Preserves invariant (signedPart constants negative) := by
  intro cursor known
  fun_induction signedPart constants negative cursor with
  | case1 negative cursor value =>
      exact moveWith_preserves step (signed negative value) cursor known
  | case2 _ _ _ _ _ _ failed => exact step.error failed known
  | case3 _ _ _ _ _ _ moved inductionHypothesis =>
      exact inductionHypothesis (step.ok moved known)
  | case4 => exact known

theorem furtherParts_preserves (value : SymInt) :
    Preserves invariant (furtherParts constants value) := by
  intro cursor known
  fun_induction furtherParts constants value cursor with
  | case1 => exact known
  | case2 _ _ _ _ _ _ failed => exact step.error failed known
  | case3 _ _ _ _ _ _ moved _ _ failed =>
      exact (signedPart_preserves step constants false).error failed
        (step.ok moved known)
  | case4 _ _ _ _ _ _ moved _ _ part inductionHypothesis =>
      exact inductionHypothesis ((signedPart_preserves step constants false).ok
        part (step.ok moved known))

theorem expression_preserves : Preserves invariant (expression constants) :=
  bind_preserves (signedPart_preserves step constants false) fun _ =>
    furtherParts_preserves step constants _

theorem addressInside_preserves :
    Preserves invariant (addressInside constants) := by
  refine bind_preserves current_preserves fun token => ?_
  split
  · refine bind_preserves step fun _ => ?_
    refine bind_preserves current_preserves fun _ => ?_
    refine ite_preserves (bind_preserves step fun _ => pure_preserves _) ?_
    refine bind_preserves (expect_preserves step _) fun _ => ?_
    refine bind_preserves (expression_preserves step constants) fun _ => ?_
    exact bind_preserves (expect_preserves step _) fun _ => pure_preserves _
  · refine bind_preserves (expression_preserves step constants) fun _ => ?_
    refine bind_preserves (expect_preserves step _) fun _ => ?_
    refine bind_preserves current_preserves fun _ => ?_
    split
    · refine bind_preserves step fun _ => ?_
      exact bind_preserves (expect_preserves step _) fun _ => pure_preserves _
    · exact unexpected_preserves

theorem argument_preserves : Preserves invariant (argument constants) := by
  refine bind_preserves current_preserves fun token => ?_
  split
  · exact bind_preserves step fun _ => pure_preserves _
  · exact bind_preserves step fun _ => pure_preserves _
  · refine bind_preserves ?_ fun _ => pure_preserves _
    exact bind_preserves step fun _ =>
      addressInside_preserves step constants
  · exact bind_preserves (expression_preserves step constants) fun _ =>
      pure_preserves _

theorem argumentsOnto_preserves (reversed : List Argument) :
    Preserves invariant (argumentsOnto constants reversed) := by
  intro cursor known
  have each := argument_preserves step constants
  fun_induction argumentsOnto constants reversed cursor with
  | case1 _ _ _ _ failed => exact each.error failed known
  | case2 _ _ _ _ first _ _ _ failed =>
      exact step.error failed (each.ok first known)
  | case3 _ _ _ _ first _ _ _ moved inductionHypothesis =>
      exact inductionHypothesis (step.ok moved (each.ok first known))
  | case4 _ _ _ _ first => exact each.ok first known

theorem arguments_preserves : Preserves invariant (arguments constants) :=
  bind_preserves current_preserves fun _ =>
    ite_preserves (pure_preserves _) (argumentsOnto_preserves step constants _)

theorem timesCount_preserves (mnemonic : Mnemonic) :
    Preserves invariant (timesCount constants mnemonic) := by
  unfold timesCount
  split
  · refine bind_preserves (expression_preserves step constants) fun _ => ?_
    exact bind_preserves (expect_preserves step _) fun _ => pure_preserves _
  · exact pure_preserves _

theorem instruction_preserves (width : Width) (mnemonic : Mnemonic) :
    Preserves invariant (instruction width constants mnemonic) := by
  refine bind_preserves current_preserves fun _ => ?_
  refine bind_preserves step fun _ => ?_
  refine bind_preserves (timesCount_preserves step constants _) fun _ => ?_
  refine bind_preserves (arguments_preserves step constants) fun _ => ?_
  exact liftOperation_preserves _ _ _

omit constants in
theorem label_preserves : Preserves invariant label := by
  refine bind_preserves current_preserves fun _ => ?_
  refine bind_preserves step fun _ => ?_
  refine bind_preserves current_preserves fun _ => ?_
  split
  · exact bind_preserves step fun _ => pure_preserves _
  · exact throw_preserves _

omit constants in
theorem skipNewlines_preserves : Preserves invariant skipNewlines := by
  intro cursor known
  fun_induction skipNewlines cursor with
  | case1 _ _ _ _ failed => exact step.error failed known
  | case2 _ _ _ _ moved inductionHypothesis =>
      exact inductionHypothesis (step.ok moved known)
  | case3 => exact known

theorem statementHere_preserves (width : Width) :
    Preserves invariant (statementHere width constants) := by
  have declared : Preserves invariant (label >>= complete) :=
    bind_preserves (label_preserves step) complete_preserves
  have instructed (mnemonic : Mnemonic) : Preserves invariant
      (instruction width constants mnemonic >>= complete) :=
    bind_preserves (instruction_preserves step constants width mnemonic)
      complete_preserves
  intro cursor known
  cases result : statementHere width constants cursor with
  | ok value after =>
      unfold statementHere at result
      split at result
      · cases result
        exact known
      · exact declared.ok result known
      · exact (instructed _).ok result known
      · cases result
  | error fault after =>
      unfold statementHere at result
      split at result
      · cases result
      · exact declared.error result known
      · exact (instructed _).error result known
      · cases result
        exact known

theorem statement_preserves (width : Width) :
    Preserves invariant (statement width constants) :=
  bind_preserves (skipNewlines_preserves step) fun _ =>
    statementHere_preserves step constants width

end

end FlatAsm.Parse
