/-!
# Repetition

Data and sequences can be repeated.  A repetition is built from its end, and
of a long one only as much as is asked for.  The main statements say that
both ways give the copies one after the other.
-/

namespace FlatAsm

variable {α : Type}

/-- The values of a list, several times over; no times if not positive. -/
def repeated (count : Int) (values : List α) : List α :=
  if values.isEmpty then []
  else
    let reversed := values.reverse
    Nat.repeat (fun rest => reversed.reverseAux rest) count.toNat []

/-- The first values of a repetition. -/
def repeatedUpTo (size : Nat) (count : Int) (values : List α) : List α :=
  (repeated (min count size) values).take size

theorem repeat_reverseAux (values : List α) (count : Nat) :
    Nat.repeat (fun rest => values.reverse.reverseAux rest) count [] =
      (List.replicate count values).flatten := by
  induction count with
  | zero => rfl
  | succ count inductionHypothesis =>
      rw [Nat.repeat, inductionHypothesis, List.reverseAux_eq,
        List.reverse_reverse, List.replicate_succ, List.flatten_cons]

theorem repeated_eq_flatten (count : Int) (values : List α) :
    repeated count values = (List.replicate count.toNat values).flatten := by
  cases values with
  | nil => simp [repeated]
  | cons first rest => exact repeat_reverseAux (first :: rest) count.toNat

theorem repeatedUpTo_eq_take
    (size : Nat) (count : Int) (values : List α) :
    repeatedUpTo size count values = (repeated count values).take size := by
  by_cases within : count ≤ size
  · rw [repeatedUpTo, Int.min_eq_left within]
  · cases values with
    | nil => rfl
    | cons first rest =>
        have beyond : (size : Int) ≤ count := by omega
        have split : count.toNat = size + (count.toNat - size) := by omega
        have enough :
            size ≤ (List.replicate size (first :: rest)).flatten.length := by
          simp [List.length_flatten, Nat.mul_add]
        rw [repeatedUpTo, Int.min_eq_right beyond, repeated_eq_flatten,
          repeated_eq_flatten, Int.toNat_natCast, split,
          ← List.replicate_append_replicate, List.flatten_append,
          List.take_append_of_le_length enough]

end FlatAsm
