import Mathlib.Data.List.Forall2
import Mathlib.Data.List.Induction

/-!
# Outcomes of steps that can fail

What a loop of steps gives is given if every step succeeds.  So whatever the
steps keep holds after the loop, and the loop succeeds if each of its steps
does.
-/

namespace FlatAsm

/-- Steps succeed one after the other if both do. -/
theorem bind_eq_ok_iff {ε α β : Type} {first : Except ε α}
    {next : α → Except ε β} {result : β} :
    first >>= next = .ok result ↔
      ∃ value, first = .ok value ∧ next value = .ok result := by
  cases first <;> simp [bind, Except.bind]

theorem ok_bind {ε α β : Type} (value : α) (next : α → Except ε β) :
    Except.ok value >>= next = next value :=
  rfl

/-- A list is mapped without error if each of its elements is. -/
theorem mapM_eq_ok_iff {ε α β : Type} {step : α → Except ε β}
    {values : List α} {results : List β} :
    values.mapM step = .ok results ↔
      List.Forall₂ (fun value result => step value = .ok result)
        values results := by
  induction values generalizing results with
  | nil =>
      cases results <;> simp [pure, Except.pure]
  | cons value rest inductionHypothesis =>
      rw [List.mapM_cons]
      cases first : step value with
      | error cause =>
          cases results <;>
            simp [bind, Except.bind, first]
      | ok result =>
          cases further : rest.mapM step with
          | error cause =>
              rw [further] at inductionHypothesis
              cases results <;>
                simp [bind, Except.bind, first, ← inductionHypothesis]
          | ok others =>
              rw [further] at inductionHypothesis
              cases results <;>
                simp [bind, Except.bind, pure, Except.pure, first,
                  ← inductionHypothesis]

section

variable {ε α β : Type} {step : β → α → Except ε β}

theorem foldlM_concat (values : List α) (value : α) (start : β) :
    (values ++ [value]).foldlM step start =
      values.foldlM step start >>= fun before => step before value := by
  simp

/-- What each step keeps holds after all steps, of all that was done. -/
theorem foldlM_induction {motive : List α → β → Prop} {start result : β}
    {values : List α} (done : values.foldlM step start = .ok result)
    (none : motive [] start)
    (next : ∀ front value before after, value ∈ values →
      motive front before → step before value = .ok after →
        motive (front ++ [value]) after) :
    motive values result := by
  induction values using List.reverseRecOn generalizing result with
  | nil =>
      cases done
      exact none
  | append_singleton values value inductionHypothesis =>
      rw [foldlM_concat, bind_eq_ok_iff] at done
      obtain ⟨before, earlier, last⟩ := done
      refine next values value before result (by simp) ?_ last
      refine inductionHypothesis earlier ?_
      intro front other before after member
      exact next front other before after
        (List.mem_append_left [value] member)

/-- All steps succeed if each does, wherever it starts. -/
theorem exists_foldlM_iff {fits : α → Prop}
    (succeeds : ∀ before value,
      (∃ after, step before value = .ok after) ↔ fits value)
    {values : List α} {start : β} :
    (∃ result, values.foldlM step start = .ok result) ↔
      ∀ value ∈ values, fits value := by
  induction values generalizing start with
  | nil => simp [pure, Except.pure]
  | cons value rest inductionHypothesis =>
      simp only [List.foldlM_cons, bind_eq_ok_iff, List.forall_mem_cons]
      constructor
      · rintro ⟨result, before, first, others⟩
        exact ⟨(succeeds start value).1 ⟨before, first⟩,
          inductionHypothesis.1 ⟨result, others⟩⟩
      · rintro ⟨here, later⟩
        obtain ⟨before, first⟩ := (succeeds start value).2 here
        obtain ⟨result, others⟩ :=
          (@inductionHypothesis before).2 later
        exact ⟨result, before, first, others⟩

end

end FlatAsm
