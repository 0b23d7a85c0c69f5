import FlatAsm.Proofs.TableLookup
import FlatAsm.SymInt
import Mathlib.Algebra.BigOperators.Group.List.Basic
import Mathlib.Algebra.Order.Ring.Int

/-!
# Values of symbolic integers

A symbolic integer is a linear form in the addresses of labels.  It is
described here by its base and its coefficients, and it has a value under
every choice of a weight for each label.  The arithmetic of symbolic integers
is that of linear forms, and resolving one gives its value where every label
it depends on has an address.
-/

namespace FlatAsm.SymInt

/-- How often the address of a label counts. -/
def coefficient (value : SymInt) (label : Text) : Int64 :=
  (value.coefficients.find? label).getD 0

/-- The sum of coefficient times weight over some labels. -/
def weightedSum (weight : Text → Int64)
    (entries : List (Text × Int64)) : Int64 :=
  (entries.map fun entry => entry.2 * weight entry.1).sum

/-- The value if each label has the given weight for its address. -/
def weigh (weight : Text → Int64) (value : SymInt) : Int64 :=
  value.base + weightedSum weight value.coefficients.entries

/-- The value without wrap-around, for addresses without bounds. -/
def exactly (address : Text → Int) (value : SymInt) : Int :=
  value.base.toInt +
    (value.coefficients.entries.map fun entry =>
      entry.2.toInt * address entry.1).sum

/-- The address of a label as a word; 0 if it has none. -/
def addressWord (addresses : Table Int) (label : Text) : Int64 :=
  Int64.ofInt ((addresses.find? label).getD 0)

@[simp]
theorem weightedSum_nil (weight : Text → Int64) :
    weightedSum weight [] = 0 :=
  rfl

@[simp]
theorem weightedSum_cons (weight : Text → Int64)
    (entry : Text × Int64) (rest : List (Text × Int64)) :
    weightedSum weight (entry :: rest) =
      entry.2 * weight entry.1 + weightedSum weight rest := by
  simp [weightedSum]

/-- Raising one coefficient raises the sum by that many weights. -/
theorem weightedSum_insertEntry
    (weight : Text → Int64) (label : Text) (added : Int64)
    {entries : List (Text × Int64)} (sorted : KeysSorted entries) :
    weightedSum weight
        (Table.insertEntry label
          ((Table.findAmong? label entries).getD 0 + added) entries) =
      weightedSum weight entries + added * weight label := by
  induction entries with
  | nil => simp [Table.insertEntry, Table.findAmong?]
  | cons head rest inductionHypothesis =>
      rcases head with ⟨other, old⟩
      rcases List.pairwise_cons.1 sorted with ⟨above, sortedRest⟩
      rw [Table.insertEntry_cons]
      split
      · next before =>
        have absent :
            Table.findAmong? label ((other, old) :: rest) = none := by
          apply Table.findAmong?_eq_none_of_below
          intro entry member
          rcases List.mem_cons.1 member with rfl | later
          · exact before
          · exact List.lt_trans before (above entry later)
        rw [absent]
        simp only [weightedSum_cons, Option.getD_none]
        grind
      · split
        · next same =>
          subst same
          rw [Table.findAmong?_cons, if_pos rfl]
          simp only [weightedSum_cons, Option.getD_some]
          grind
        · next different =>
          rw [Table.findAmong?_cons, if_neg different]
          simp only [weightedSum_cons, inductionHypothesis sortedRest]
          grind

theorem weightedSum_addTerms
    (weight : Text → Int64) (sign : Int64) (table : Table Int64)
    (entries : List (Text × Int64)) :
    weightedSum weight (addTerms sign table entries).entries =
      weightedSum weight table.entries +
        sign * weightedSum weight entries := by
  induction entries generalizing table with
  | nil => simp [addTerms]
  | cons head rest inductionHypothesis =>
      have raised := weightedSum_insertEntry weight head.1
        (sign * head.2) table.sorted
      have further := inductionHypothesis
        (table.insert head.1
          ((table.find? head.1).getD 0 + sign * head.2))
      simp only [addTerms, List.foldl_cons] at further ⊢
      rw [further, weightedSum_cons]
      simp only [Table.insert, Table.find?, raised]
      grind

/-- Entries that are zero do not matter. -/
theorem weightedSum_filter
    (weight : Text → Int64) (entries : List (Text × Int64)) :
    weightedSum weight (entries.filter fun entry => entry.2 != 0) =
      weightedSum weight entries := by
  induction entries with
  | nil => rfl
  | cons head rest inductionHypothesis =>
      rw [List.filter_cons]
      split
      · simp [inductionHypothesis]
      · next zero =>
        have isZero : head.2 = 0 := by simpa using zero
        simp [inductionHypothesis, isZero]

/-- Combining values combines what they are under all weights. -/
theorem weigh_combine
    (weight : Text → Int64) (left : SymInt) (sign : Int64)
    (right : SymInt) :
    (left.combine sign right).weigh weight =
      left.weigh weight + sign * right.weigh weight := by
  simp only [weigh, combine, Table.filter, weightedSum_filter,
    weightedSum_addTerms]
  grind

theorem find?_addTerms
    (sign : Int64) (label : Text) (table : Table Int64)
    {entries : List (Text × Int64)} (sorted : KeysSorted entries) :
    ((addTerms sign table entries).find? label).getD 0 =
      (table.find? label).getD 0 +
        sign * (Table.findAmong? label entries).getD 0 := by
  induction entries generalizing table with
  | nil => simp [addTerms, Table.findAmong?]
  | cons head rest inductionHypothesis =>
      rcases head with ⟨other, coefficient⟩
      rcases List.pairwise_cons.1 sorted with ⟨above, sortedRest⟩
      have further := inductionHypothesis
        (table.insert other
          ((table.find? other).getD 0 + sign * coefficient)) sortedRest
      simp only [addTerms, List.foldl_cons] at further ⊢
      rw [further, Table.find?_insert, Table.findAmong?_cons]
      by_cases same : label = other
      · subst same
        have absent := Table.findAmong?_eq_none_of_below above
        simp [absent]
      · simp [same]

/-- Combining values combines their coefficients. -/
theorem coefficient_combine
    (left : SymInt) (sign : Int64) (right : SymInt) (label : Text) :
    (left.combine sign right).coefficient label =
      left.coefficient label + sign * right.coefficient label := by
  have summed := find?_addTerms sign label left.coefficients
    right.coefficients.sorted
  change _ = left.coefficient label +
    sign * right.coefficient label at summed
  rw [← summed]
  simp only [coefficient, combine, Table.find?_filter]
  cases Table.find? (addTerms sign left.coefficients _) label with
  | none => rfl
  | some found =>
      by_cases zero : found = 0 <;> simp [Option.filter, zero]

@[simp]
theorem weigh_constant (weight : Text → Int64) (number : Int64) :
    (constant number).weigh weight = number := by
  simp [weigh, constant, EmptyCollection.emptyCollection, Table.empty]

@[simp]
theorem coefficient_constant (number : Int64) (label : Text) :
    (constant number).coefficient label = 0 :=
  rfl

@[simp]
theorem weigh_symbol (weight : Text → Int64) (label : Text) :
    (symbol label).weigh weight = weight label := by
  simp [weigh, symbol, Table.insert, Table.insertEntry, Table.empty]

theorem coefficient_symbol (label other : Text) :
    (symbol label).coefficient other = if other = label then 1 else 0 := by
  simp only [coefficient, symbol, Table.find?_insert]
  split <;> rfl

theorem mem_terms_iff {value : SymInt} {label : Text} {factor : Int64} :
    (label, factor) ∈ value.terms ↔
      factor ≠ 0 ∧ value.coefficient label = factor := by
  rw [terms, List.mem_filter, Table.mem_entries_iff, coefficient]
  cases value.coefficients.find? label with
  | none =>
      simp only [reduceCtorEq, false_and, Option.getD_none, false_iff]
      rintro ⟨nonzero, zero⟩
      exact nonzero zero.symm
  | some found =>
      simp only [Option.some.injEq, Option.getD_some, bne_iff_ne]
      exact and_comm

theorem isConstant_iff {value : SymInt} :
    value.isConstant = true ↔ ∀ label, value.coefficient label = 0 := by
  simp only [isConstant, List.all_eq_true, beq_iff_eq]
  constructor
  · intro zeros label
    rw [coefficient]
    cases found : value.coefficients.find? label with
    | none => rfl
    | some factor => exact zeros _ (Table.mem_entries_iff.2 found)
  · rintro zeros ⟨label, factor⟩ member
    have zero := zeros label
    rwa [coefficient, Table.mem_entries_iff.1 member] at zero

theorem terms_eq_nil_iff {value : SymInt} :
    value.terms = [] ↔ value.isConstant = true := by
  simp [terms, isConstant, List.filter_eq_nil_iff]

theorem weigh_eq_base_add (weight : Text → Int64) (value : SymInt) :
    value.weigh weight = value.base + weightedSum weight value.terms := by
  rw [weigh, terms, weightedSum_filter]

/-- A constant is its base whatever the addresses are. -/
theorem weigh_of_isConstant
    {value : SymInt} (fixed : value.isConstant = true)
    (weight : Text → Int64) :
    value.weigh weight = value.base := by
  rw [weigh_eq_base_add, terms_eq_nil_iff.2 fixed]
  simp

/-- Only the labels a value depends on matter. -/
theorem weigh_congr {value : SymInt} {weight other : Text → Int64}
    (agree : ∀ term ∈ value.terms, weight term.1 = other term.1) :
    value.weigh weight = value.weigh other := by
  have same :
      value.terms.map (fun entry => entry.2 * weight entry.1) =
        value.terms.map (fun entry => entry.2 * other entry.1) := by
    apply List.map_congr_left
    intro term member
    rw [agree term member]
  rw [weigh_eq_base_add, weigh_eq_base_add, weightedSum, weightedSum, same]

theorem resolveTerms_eq
    (addresses : Table Int) (sum : Int64)
    {entries : List (Text × Int64)}
    (known : ∀ entry ∈ entries, addresses.contains entry.1 = true) :
    resolveTerms addresses sum entries =
      (sum + weightedSum (addressWord addresses) entries, true) := by
  induction entries generalizing sum with
  | nil => simp [resolveTerms]
  | cons head rest inductionHypothesis =>
      rcases head with ⟨label, factor⟩
      have present := known (label, factor) List.mem_cons_self
      obtain ⟨address, found⟩ := Option.isSome_iff_exists.1 present
      simp only [resolveTerms, found]
      rw [inductionHypothesis _ fun entry member =>
        known entry (List.mem_cons_of_mem _ member)]
      simp only [weightedSum_cons, addressWord, found, Option.getD_some,
        Int64.add_assoc]

/-- Where every label has an address, resolving gives the value. -/
theorem resolve_eq_weigh
    {value : SymInt} {addresses : Table Int}
    (known : ∀ term ∈ value.terms, addresses.contains term.1 = true) :
    value.resolve addresses =
      (value.weigh (addressWord addresses), true) := by
  rw [resolve, resolveTerms_eq addresses value.base known,
    weigh_eq_base_add]

theorem ofInt_sum (address : Text → Int) (entries : List (Text × Int64)) :
    Int64.ofInt (entries.map fun entry =>
        entry.2.toInt * address entry.1).sum =
      weightedSum (fun label => Int64.ofInt (address label)) entries := by
  induction entries with
  | nil => rfl
  | cons head rest inductionHypothesis =>
      simp [Int64.ofInt_add, Int64.ofInt_mul, inductionHypothesis]

/-- Wrapping the exact value around gives the value. -/
theorem ofInt_exactly (address : Text → Int) (value : SymInt) :
    Int64.ofInt (value.exactly address) =
      value.weigh fun label => Int64.ofInt (address label) := by
  rw [exactly, Int64.ofInt_add, Int64.ofInt_toInt, ofInt_sum, weigh]

end FlatAsm.SymInt
