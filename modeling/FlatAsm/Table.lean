import FlatAsm.Text

/-!
# Tables keyed by text

A table maps texts to values.  Its entries are kept in the order of their
keys, so two tables with the same entries are equal and every listing of a
table comes out sorted.
-/

namespace FlatAsm

variable {α : Type}

/-- The entries stand in strictly increasing order of their keys. -/
def KeysSorted (entries : List (Text × α)) : Prop :=
  entries.Pairwise fun left right => left.1 < right.1

/-- A finite map from texts to values. -/
structure Table (α : Type) where
  /-- Every key with its value, in the order of the keys. -/
  entries : List (Text × α)
  sorted : KeysSorted entries

namespace Table

theorem ext_entries {left right : Table α}
    (equality : left.entries = right.entries) :
    left = right := by
  cases left
  cases right
  cases equality
  rfl

instance [DecidableEq α] : DecidableEq (Table α) := fun left right =>
  if equality : left.entries = right.entries then
    isTrue (ext_entries equality)
  else isFalse fun same => equality (same ▸ rfl)

instance [Repr α] : Repr (Table α) where
  reprPrec table precedence := reprPrec table.entries precedence

/-- The table without entries. -/
def empty : Table α where
  entries := []
  sorted := List.Pairwise.nil

instance : EmptyCollection (Table α) := ⟨empty⟩

instance : Inhabited (Table α) := ⟨empty⟩

/-- Look a key up among entries. -/
def findAmong? (key : Text) : List (Text × α) → Option α
  | [] => none
  | (other, value) :: rest =>
      match key.order other with
      | .eq => some value
      | _ => findAmong? key rest

theorem findAmong?_cons (key other : Text) (value : α)
    (rest : List (Text × α)) :
    findAmong? key ((other, value) :: rest) =
      if key = other then some value else findAmong? key rest := by
  simp only [findAmong?, ← Text.order_eq_eq_iff]
  cases key.order other <;> simp

/-- The value of a key. -/
def find? (table : Table α) (key : Text) : Option α :=
  findAmong? key table.entries

/-- Does the table have an entry for the key? -/
def contains (table : Table α) (key : Text) : Bool :=
  (table.find? key).isSome

/-- Put an entry in its place, over an older one with the same key. -/
def insertEntry (key : Text) (value : α) :
    List (Text × α) → List (Text × α)
  | [] => [(key, value)]
  | (other, old) :: rest =>
      match key.order other with
      | .lt => (key, value) :: (other, old) :: rest
      | .eq => (key, value) :: rest
      | .gt => (other, old) :: insertEntry key value rest

theorem insertEntry_cons (key other : Text) (value old : α)
    (rest : List (Text × α)) :
    insertEntry key value ((other, old) :: rest) =
      if key < other then (key, value) :: (other, old) :: rest
      else if key = other then (key, value) :: rest
      else (other, old) :: insertEntry key value rest := by
  simp only [insertEntry, ← Text.order_eq_lt_iff, ← Text.order_eq_eq_iff]
  cases key.order other <;> simp

theorem mem_insertEntry_fst
    {key : Text} {value : α} {entries : List (Text × α)}
    {entry : Text × α}
    (member : entry ∈ insertEntry key value entries) :
    entry.1 = key ∨ entry ∈ entries := by
  induction entries with
  | nil => simp_all [insertEntry]
  | cons head rest inductionHypothesis =>
      rw [insertEntry_cons] at member
      split at member
      · rcases List.mem_cons.1 member with rfl | later
        · exact .inl rfl
        · exact .inr later
      · split at member
        · rcases List.mem_cons.1 member with rfl | later
          · exact .inl rfl
          · exact .inr (List.mem_cons_of_mem _ later)
        · rcases List.mem_cons.1 member with rfl | later
          · exact .inr List.mem_cons_self
          · rcases inductionHypothesis later with same | old
            · exact .inl same
            · exact .inr (List.mem_cons_of_mem _ old)

theorem sorted_insertEntry
    (key : Text) (value : α) {entries : List (Text × α)}
    (sorted : KeysSorted entries) :
    KeysSorted (insertEntry key value entries) := by
  induction entries with
  | nil => exact List.pairwise_singleton _ _
  | cons head rest inductionHypothesis =>
      rcases List.pairwise_cons.1 sorted with ⟨above, sortedRest⟩
      rw [insertEntry_cons]
      split
      · next before =>
        refine List.pairwise_cons.2 ⟨?_, sorted⟩
        intro entry member
        rcases List.mem_cons.1 member with rfl | later
        · exact before
        · exact List.lt_trans before (above entry later)
      · next notBefore =>
        split
        · next same =>
          refine List.pairwise_cons.2 ⟨?_, sortedRest⟩
          intro entry member
          exact same ▸ above entry member
        · next different =>
          refine List.pairwise_cons.2
            ⟨?_, inductionHypothesis sortedRest⟩
          intro entry member
          rcases mem_insertEntry_fst member with same | old
          · rw [same]
            exact Std.lt_of_le_of_ne (List.not_lt.1 notBefore)
              (Ne.symm different)
          · exact above entry old

/-- Give a key a value, in place of any older one. -/
def insert (table : Table α) (key : Text) (value : α) : Table α where
  entries := insertEntry key value table.entries
  sorted := sorted_insertEntry key value table.sorted

/-- The entries whose value passes a test. -/
def filter (table : Table α) (keep : α → Bool) : Table α where
  entries := table.entries.filter fun entry => keep entry.2
  sorted := List.Pairwise.filter _ table.sorted

/-- Put the entries of a list into a table, the later over the earlier. -/
def ofList (entries : List (Text × α)) : Table α :=
  entries.foldl (fun table entry => table.insert entry.1 entry.2) empty

end Table

end FlatAsm
