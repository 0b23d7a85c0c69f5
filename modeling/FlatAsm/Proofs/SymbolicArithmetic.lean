import FlatAsm.Proofs.LabelSubstitution

/-!
# The arithmetic of symbolic integers

A sum, a difference or a negative is computed label by label and keeps no
entry that is zero.  A value without such entries is determined by its base
and its coefficients, so the laws of words carry over: values without zero
entries form an abelian group.

Resolving is a homomorphism on the values whose labels all have addresses.
Labels that cancel need none, not even if they cancel only because words wrap
around.
-/

namespace FlatAsm.SymInt

instance (value : SymInt) : Decidable value.Reduced :=
  inferInstanceAs
    (Decidable (∀ entry ∈ value.coefficients.entries, entry.2 ≠ 0))

/-- The value has this base and these coefficients, and no zero entries. -/
structure HasForm (value : SymInt) (base : Int64)
    (coefficients : Text → Int64) : Prop where
  reduced : value.Reduced
  base_eq : value.base = base
  coefficient_eq : ∀ label, value.coefficient label = coefficients label

/-- Values of the same form are equal. -/
theorem HasForm.unique {left right : SymInt} {base base' : Int64}
    {coefficients coefficients' : Text → Int64}
    (leftForm : left.HasForm base coefficients)
    (rightForm : right.HasForm base' coefficients')
    (bases : base = base')
    (same : ∀ label, coefficients label = coefficients' label) :
    left = right := by
  apply eq_of_reduced leftForm.reduced rightForm.reduced
  · rw [leftForm.base_eq, bases, rightForm.base_eq]
  · intro label
    rw [leftForm.coefficient_eq, same, rightForm.coefficient_eq]

theorem hasForm_of_reduced {value : SymInt} (reduced : value.Reduced) :
    value.HasForm value.base value.coefficient :=
  ⟨reduced, rfl, fun _ => rfl⟩

theorem hasForm_zero : (constant 0).HasForm 0 fun _ => 0 :=
  hasForm_of_reduced (reduced_constant 0)

theorem hasForm_combine (left : SymInt) (sign : Int64) (right : SymInt) :
    (left.combine sign right).HasForm (left.base + sign * right.base)
      fun label => left.coefficient label + sign * right.coefficient label :=
  ⟨reduced_combine left sign right, rfl, coefficient_combine left sign right⟩

theorem hasForm_add (left right : SymInt) :
    (left.add right).HasForm (left.base + right.base)
      fun label => left.coefficient label + right.coefficient label := by
  have combined := hasForm_combine left 1 right
  simp only [Int64.one_mul] at combined
  exact combined

theorem hasForm_sub (left right : SymInt) :
    (left.sub right).HasForm (left.base - right.base)
      fun label => left.coefficient label - right.coefficient label := by
  have combined := hasForm_combine left (-1) right
  simp only [Int64.neg_mul, Int64.one_mul, ← Int64.sub_eq_add_neg] at combined
  exact combined

theorem hasForm_neg (value : SymInt) :
    value.neg.HasForm (-value.base) fun label => -value.coefficient label := by
  have difference := hasForm_sub (constant 0) value
  simp only [coefficient_constant, Int64.zero_sub] at difference
  refine ⟨difference.reduced, ?_, difference.coefficient_eq⟩
  exact difference.base_eq.trans (Int64.zero_sub value.base)

/-! ## Group laws -/

theorem add_assoc (first second third : SymInt) :
    (first.add second).add third = first.add (second.add third) := by
  apply (hasForm_add _ _).unique (hasForm_add _ _)
  · rw [(hasForm_add first second).base_eq,
      (hasForm_add second third).base_eq, Int64.add_assoc]
  · intro label
    rw [(hasForm_add first second).coefficient_eq,
      (hasForm_add second third).coefficient_eq, Int64.add_assoc]

theorem add_comm (left right : SymInt) : left.add right = right.add left := by
  apply (hasForm_add left right).unique (hasForm_add right left)
  · exact Int64.add_comm _ _
  · exact fun _ => Int64.add_comm _ _

theorem add_zero {value : SymInt} (reduced : value.Reduced) :
    value.add (constant 0) = value := by
  apply (hasForm_add value (constant 0)).unique (hasForm_of_reduced reduced)
  · exact Int64.add_zero _
  · exact fun _ => Int64.add_zero _

theorem sub_eq_add_neg (left right : SymInt) :
    left.sub right = left.add right.neg := by
  apply (hasForm_sub left right).unique (hasForm_add left right.neg)
  · rw [(hasForm_neg right).base_eq, Int64.sub_eq_add_neg]
  · intro label
    rw [(hasForm_neg right).coefficient_eq, Int64.sub_eq_add_neg]

theorem add_neg (value : SymInt) : value.add value.neg = constant 0 := by
  apply (hasForm_add value value.neg).unique hasForm_zero
  · rw [(hasForm_neg value).base_eq, Int64.add_right_neg]
  · intro label
    rw [(hasForm_neg value).coefficient_eq, Int64.add_right_neg]

theorem neg_neg {value : SymInt} (reduced : value.Reduced) :
    value.neg.neg = value := by
  apply (hasForm_neg value.neg).unique (hasForm_of_reduced reduced)
  · rw [(hasForm_neg value).base_eq, Int64.neg_neg]
  · intro label
    rw [(hasForm_neg value).coefficient_eq, Int64.neg_neg]

/-! ## Resolving -/

/-- Every label that counts has an address. -/
def Known (addresses : Table Int) (value : SymInt) : Prop :=
  ∀ label, value.coefficient label ≠ 0 → addresses.contains label = true

theorem known_iff_terms {addresses : Table Int} {value : SymInt} :
    value.Known addresses ↔
      ∀ term ∈ value.terms, addresses.contains term.1 = true := by
  constructor
  · rintro known ⟨label, factor⟩ member
    obtain ⟨nonzero, rfl⟩ := mem_terms_iff.1 member
    exact known label nonzero
  · intro known label nonzero
    exact known (label, value.coefficient label)
      (mem_terms_iff.2 ⟨nonzero, rfl⟩)

/-- Adding up stops short exactly at a label without an address. -/
theorem resolveTerms_snd_iff {addresses : Table Int} {sum : Int64}
    {entries : List (Text × Int64)} :
    (resolveTerms addresses sum entries).2 = true ↔
      ∀ entry ∈ entries, addresses.contains entry.1 = true := by
  fun_induction resolveTerms addresses sum entries with
  | case1 => simp
  | case2 sum label factor rest absent =>
      simp [Table.contains, absent]
  | case3 sum label factor rest address found inductionHypothesis =>
      rw [inductionHypothesis, List.forall_mem_cons]
      simp [Table.contains, found]

theorem resolve_snd_iff {addresses : Table Int} {value : SymInt} :
    (value.resolve addresses).2 = true ↔ value.Known addresses :=
  resolveTerms_snd_iff.trans known_iff_terms.symm

theorem resolve_of_known {addresses : Table Int} {value : SymInt}
    (known : value.Known addresses) :
    value.resolve addresses = (value.weigh (addressWord addresses), true) :=
  resolve_eq_weigh (known_iff_terms.1 known)

theorem Known.combine {addresses : Table Int} {left right : SymInt}
    (leftKnown : left.Known addresses) (rightKnown : right.Known addresses)
    (sign : Int64) : (left.combine sign right).Known addresses := by
  intro label nonzero
  rw [coefficient_combine] at nonzero
  by_cases absent : left.coefficient label = 0
  · refine rightKnown label fun zero => nonzero ?_
    rw [absent, zero, Int64.mul_zero, Int64.add_zero]
  · exact leftKnown label absent

/-- Where two values resolve, so does what they are combined to. -/
theorem resolve_combine {addresses : Table Int} {left right : SymInt}
    {leftWord rightWord : Int64}
    (leftResolves : left.resolve addresses = (leftWord, true))
    (rightResolves : right.resolve addresses = (rightWord, true))
    (sign : Int64) :
    (left.combine sign right).resolve addresses =
      (leftWord + sign * rightWord, true) := by
  have leftKnown : left.Known addresses := by
    rw [← resolve_snd_iff, leftResolves]
  have rightKnown : right.Known addresses := by
    rw [← resolve_snd_iff, rightResolves]
  rw [resolve_of_known leftKnown] at leftResolves
  rw [resolve_of_known rightKnown] at rightResolves
  rw [resolve_of_known (leftKnown.combine rightKnown sign), weigh_combine,
    (Prod.mk.inj leftResolves).1, (Prod.mk.inj rightResolves).1]

theorem resolve_zero (addresses : Table Int) :
    (constant 0).resolve addresses = (0, true) :=
  rfl

/-! ## The laws together -/

/-- The laws of an abelian group, for some of its elements. -/
structure GroupLaws (first second third : SymInt) : Prop where
  assoc : (first.add second).add third = first.add (second.add third)
  comm : first.add second = second.add first
  zero : first.add (constant 0) = first ∧ (constant 0).add first = first
  sub_eq : first.sub second = first.add second.neg
  inverse : first.add first.neg = constant 0
  involution : first.neg.neg = first

/-- Sums, differences and negatives resolve to those of the words. -/
structure ResolveLaws (addresses : Table Int) (left right : SymInt)
    (leftWord rightWord : Int64) : Prop where
  add : (left.add right).resolve addresses = (leftWord + rightWord, true)
  sub : (left.sub right).resolve addresses = (leftWord - rightWord, true)
  neg : left.neg.resolve addresses = (-leftWord, true)

theorem groupLaws {first second third : SymInt} (reduced : first.Reduced) :
    GroupLaws first second third where
  assoc := add_assoc first second third
  comm := add_comm first second
  zero := ⟨add_zero reduced, (add_comm _ _).trans (add_zero reduced)⟩
  sub_eq := sub_eq_add_neg first second
  inverse := add_neg first
  involution := neg_neg reduced

theorem resolveLaws {addresses : Table Int} {left right : SymInt}
    {leftWord rightWord : Int64}
    (leftResolves : left.resolve addresses = (leftWord, true))
    (rightResolves : right.resolve addresses = (rightWord, true)) :
    ResolveLaws addresses left right leftWord rightWord := by
  constructor
  · have sum := resolve_combine leftResolves rightResolves 1
    rwa [Int64.one_mul] at sum
  · have difference := resolve_combine leftResolves rightResolves (-1)
    rwa [Int64.neg_mul, Int64.one_mul, ← Int64.sub_eq_add_neg] at difference
  · have difference := resolve_combine (resolve_zero addresses)
      leftResolves (-1)
    rwa [Int64.neg_mul, Int64.one_mul, ← Int64.sub_eq_add_neg,
      Int64.zero_sub] at difference

/--
Arithmetic on symbolic integers is that of words, label by label, and its
results have no zero entries.  Values without zero entries obey the laws of
an abelian group.  Resolving succeeds where every label that counts has an
address, and carries the arithmetic over to words.
-/
theorem arithmetic_canonical (first second third : SymInt)
    (addresses : Table Int) :
    ((first.add second).HasForm (first.base + second.base) fun label =>
        first.coefficient label + second.coefficient label) ∧
      ((first.sub second).HasForm (first.base - second.base) fun label =>
        first.coefficient label - second.coefficient label) ∧
      (first.neg.HasForm (-first.base) fun label =>
        -first.coefficient label) ∧
      (first.Reduced → second.Reduced → third.Reduced →
        GroupLaws first second third) ∧
      (first.isConstant = true ↔ first.terms = []) ∧
      ((first.resolve addresses).2 = true ↔ ∀ label,
        first.coefficient label ≠ 0 → addresses.contains label = true) ∧
      ∀ firstWord secondWord,
        first.resolve addresses = (firstWord, true) →
        second.resolve addresses = (secondWord, true) →
          ResolveLaws addresses first second firstWord secondWord :=
  ⟨hasForm_add first second, hasForm_sub first second, hasForm_neg first,
    fun reduced _ _ => groupLaws reduced, terms_eq_nil_iff.symm,
    resolve_snd_iff, fun _ _ => resolveLaws⟩

/-- A value that is its own negative, since words wrap around. -/
def halfTurn : SymInt :=
  ⟨Int64.minValue, Table.empty.insert (Text.ascii "x") Int64.minValue⟩

/-- The laws hold where everything wraps around. -/
theorem halfTurn_arithmetic :
    GroupLaws halfTurn halfTurn (symbol (Text.ascii "y")) ∧
      ResolveLaws (Table.empty.insert (Text.ascii "x") 3)
        halfTurn halfTurn 0 0 := by
  obtain ⟨-, -, -, group, -, -, resolve⟩ := arithmetic_canonical halfTurn
    halfTurn (symbol (Text.ascii "y"))
    (Table.empty.insert (Text.ascii "x") 3)
  exact ⟨group (by decide) (by decide) (by decide),
    resolve 0 0 (by decide) (by decide)⟩

-- a label that cancels is gone, so it needs no address
example : (halfTurn.add halfTurn).resolve ∅ = (0, true) := by decide

end FlatAsm.SymInt
