import FlatAsm.Table

/-!
# Looking keys up in tables

The operations on tables are described by what `find?` answers afterwards.
Since the entries are sorted by their keys, an entry is a member of the
table exactly when looking its key up finds its value, and two tables in
which the same is found are equal.
-/

namespace FlatAsm.Table

variable {α : Type}

/-- No entry is found for a key below all keys. -/
theorem findAmong?_eq_none_of_below
    {key : Text} {entries : List (Text × α)}
    (below : ∀ entry ∈ entries, key < entry.1) :
    findAmong? key entries = none := by
  induction entries with
  | nil => rfl
  | cons head rest inductionHypothesis =>
      have before : key < head.1 := below head List.mem_cons_self
      have different : key ≠ head.1 := by
        intro same
        exact List.lt_irrefl _ (same ▸ before)
      rw [findAmong?_cons, if_neg different]
      exact inductionHypothesis fun entry member =>
        below entry (List.mem_cons_of_mem _ member)

theorem mem_iff_findAmong?
    {key : Text} {value : α} {entries : List (Text × α)}
    (sorted : KeysSorted entries) :
    (key, value) ∈ entries ↔ findAmong? key entries = some value := by
  induction entries with
  | nil => simp [findAmong?]
  | cons head rest inductionHypothesis =>
      rcases head with ⟨other, old⟩
      rcases List.pairwise_cons.1 sorted with ⟨above, sortedRest⟩
      rw [findAmong?_cons, List.mem_cons, Prod.mk.injEq,
        inductionHypothesis sortedRest]
      by_cases same : key = other
      · subst same
        have absent := findAmong?_eq_none_of_below above
        simp [absent, eq_comm]
      · simp [same]

/-- Membership and look-up agree. -/
theorem mem_entries_iff {table : Table α} {key : Text} {value : α} :
    (key, value) ∈ table.entries ↔ table.find? key = some value :=
  mem_iff_findAmong? table.sorted

@[simp]
theorem find?_empty (key : Text) : (∅ : Table α).find? key = none :=
  rfl

theorem findAmong?_insertEntry
    (key other : Text) (value : α) (entries : List (Text × α)) :
    findAmong? other (insertEntry key value entries) =
      if other = key then some value else findAmong? other entries := by
  induction entries with
  | nil => simp [insertEntry, findAmong?_cons]
  | cons head rest inductionHypothesis =>
      rcases head with ⟨first, old⟩
      rw [insertEntry_cons]
      split
      · rw [findAmong?_cons]
      · split
        · next same =>
          subst same
          simp only [findAmong?_cons]
          split <;> rfl
        · next different =>
          simp only [findAmong?_cons, inductionHypothesis]
          by_cases atFirst : other = first
          · simp [atFirst, Ne.symm different]
          · simp [atFirst]

/-- Insertion changes what is found for one key. -/
theorem find?_insert
    (table : Table α) (key other : Text) (value : α) :
    (table.insert key value).find? other =
      if other = key then some value else table.find? other :=
  findAmong?_insertEntry key other value table.entries

theorem findAmong?_filter
    {keep : α → Bool} {key : Text} {entries : List (Text × α)}
    (sorted : KeysSorted entries) :
    findAmong? key (entries.filter fun entry => keep entry.2) =
      (findAmong? key entries).filter keep := by
  induction entries with
  | nil => rfl
  | cons head rest inductionHypothesis =>
      rcases head with ⟨other, value⟩
      rcases List.pairwise_cons.1 sorted with ⟨above, sortedRest⟩
      rw [findAmong?_cons, List.filter_cons]
      by_cases same : key = other
      · subst same
        have absent := findAmong?_eq_none_of_below above
        by_cases kept : keep value = true
        · simp [kept, findAmong?_cons, Option.filter]
        · simp [kept, inductionHypothesis sortedRest, absent,
            Option.filter]
      · by_cases kept : keep value = true
        · simp [kept, findAmong?_cons, same,
            inductionHypothesis sortedRest]
        · simp [kept, same, inductionHypothesis sortedRest]

theorem find?_filter (table : Table α) (keep : α → Bool) (key : Text) :
    (table.filter keep).find? key = (table.find? key).filter keep :=
  findAmong?_filter table.sorted

theorem nodup_entries (table : Table α) : table.entries.Nodup := by
  refine table.sorted.imp ?_
  intro first second before equal
  exact List.lt_irrefl _ (equal ▸ before)

/-- Tables in which the same is found are equal. -/
theorem ext_find? {left right : Table α}
    (same : ∀ key, left.find? key = right.find? key) : left = right := by
  apply ext_entries
  have members : ∀ entry, entry ∈ left.entries ↔ entry ∈ right.entries := by
    rintro ⟨key, value⟩
    rw [mem_entries_iff, mem_entries_iff, same]
  have permuted : left.entries.Perm right.entries :=
    (List.perm_ext_iff_of_nodup left.nodup_entries
      right.nodup_entries).2 members
  refine permuted.eq_of_pairwise ?_ left.sorted right.sorted
  intro first second _ _ before after
  exact absurd (List.lt_trans before after) (List.lt_irrefl _)

theorem find?_foldl_insert {β : Type} (convert : β → α)
    (table : Table α) {entries : List (Text × β)}
    (sorted : KeysSorted entries) (key : Text) :
    (entries.foldl
        (fun table entry => table.insert entry.1 (convert entry.2))
        table).find? key =
      ((findAmong? key entries).map convert).or (table.find? key) := by
  induction entries generalizing table with
  | nil => rfl
  | cons head rest inductionHypothesis =>
      rcases head with ⟨other, value⟩
      rcases List.pairwise_cons.1 sorted with ⟨above, sortedRest⟩
      rw [List.foldl_cons, inductionHypothesis _ sortedRest, find?_insert,
        findAmong?_cons]
      by_cases same : key = other
      · subst same
        have absent := findAmong?_eq_none_of_below above
        simp [absent]
      · simp [same]

theorem lookup_cons_eq (key other : Text) (value : α)
    (rest : List (Text × α)) :
    ((other, value) :: rest).lookup key =
      if key = other then some value else rest.lookup key := by
  rw [List.lookup_cons]
  by_cases same : key = other
  · simp [same]
  · rw [if_neg same, beq_false_of_ne same]

/-- Of several entries for a key, the last one counts. -/
theorem find?_foldl_insert_eq_lookup (table : Table α)
    (entries : List (Text × α)) (key : Text) :
    (entries.foldl (fun table entry => table.insert entry.1 entry.2)
        table).find? key =
      (entries.reverse.lookup key).or (table.find? key) := by
  induction entries generalizing table with
  | nil => rfl
  | cons head rest inductionHypothesis =>
      rw [List.foldl_cons, inductionHypothesis, find?_insert,
        List.reverse_cons, List.lookup_append, Option.or_assoc,
        lookup_cons_eq]
      split <;> rfl

end FlatAsm.Table
