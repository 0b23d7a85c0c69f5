import FlatAsm.Proofs.ParserOutput

/-!
# Addresses in the place of labels

A symbolic integer in which known addresses have taken the place of their
labels has the value of the old one for its base, and keeps only labels whose
addresses are not known.  This replacement goes through the arithmetic of
symbolic integers.
-/

namespace FlatAsm

namespace Table

/-- The values of names, with the addresses of labels among them. -/
def withLabels (constants : Table Int64) (addresses : Table Int) :
    Table Int64 :=
  addresses.entries.foldl
    (fun table entry => table.insert entry.1 (Int64.ofInt entry.2))
    constants

theorem find?_withLabels (constants : Table Int64)
    (addresses : Table Int) (name : Text) :
    (constants.withLabels addresses).find? name =
      ((addresses.find? name).map Int64.ofInt).or (constants.find? name) :=
  find?_foldl_insert Int64.ofInt constants addresses.sorted name

end Table

namespace SymInt

theorem find?_of_reduced {value : SymInt} (reduced : value.Reduced)
    (label : Text) :
    value.coefficients.find? label =
      if value.coefficient label = 0 then none
      else some (value.coefficient label) := by
  rw [coefficient]
  cases entry : value.coefficients.find? label with
  | none => rfl
  | some factor =>
      have nonzero := reduced _ (Table.mem_entries_iff.2 entry)
      exact (if_neg nonzero).symm

/-- Reduced values with the same base and coefficients are equal. -/
theorem eq_of_reduced {left right : SymInt} (leftReduced : left.Reduced)
    (rightReduced : right.Reduced) (bases : left.base = right.base)
    (coefficients : ∀ label,
      left.coefficient label = right.coefficient label) :
    left = right := by
  have tables : left.coefficients = right.coefficients := by
    apply Table.ext_find?
    intro label
    rw [find?_of_reduced leftReduced, find?_of_reduced rightReduced,
      coefficients]
  cases left
  cases right
  cases bases
  cases tables
  rfl

/-- Put their addresses in the place of labels that have one. -/
def substitute (addresses : Table Int) (value : SymInt) : SymInt where
  base := value.weigh (addressWord addresses)
  coefficients :=
    { entries := value.coefficients.entries.filter fun entry =>
        !addresses.contains entry.1
      sorted := List.Pairwise.filter _ value.coefficients.sorted }

variable {addresses : Table Int}

theorem reduced_substitute {value : SymInt} (reduced : value.Reduced) :
    (value.substitute addresses).Reduced := by
  intro entry member
  exact reduced entry (List.mem_filter.1 member).1

/-- Only labels without an address are left. -/
theorem coefficient_substitute (value : SymInt) (label : Text) :
    (value.substitute addresses).coefficient label =
      if addresses.contains label = true then 0
      else value.coefficient label := by
  have found : ∀ factor,
      (value.substitute addresses).coefficients.find? label =
          some factor ↔
        addresses.contains label = false ∧
          value.coefficients.find? label = some factor := by
    intro factor
    rw [← Table.mem_entries_iff, ← Table.mem_entries_iff, substitute,
      List.mem_filter, and_comm, Bool.not_eq_true']
  rw [coefficient, coefficient]
  cases known : addresses.contains label with
  | true =>
      have absent :
          (value.substitute addresses).coefficients.find? label =
            none := by
        apply Option.eq_none_iff_forall_not_mem.2
        intro factor entry
        rw [Option.mem_def, found, known] at entry
        cases entry.1
      rw [if_pos rfl, absent]
      rfl
  | false =>
      rw [if_neg (by decide)]
      congr 1
      apply Option.ext
      intro factor
      rw [found, known]
      exact and_iff_right rfl

theorem substitute_constant (number : Int64) :
    (constant number).substitute addresses = constant number := by
  apply eq_of_reduced (reduced_substitute (reduced_constant number))
    (reduced_constant number)
  · exact weigh_constant _ number
  · intro label
    rw [coefficient_substitute, coefficient_constant, ite_self]

/-- Replacing labels goes through sums and differences. -/
theorem substitute_combine (left : SymInt) (sign : Int64)
    (right : SymInt) :
    (left.combine sign right).substitute addresses =
      (left.substitute addresses).combine sign
        (right.substitute addresses) := by
  apply eq_of_reduced (reduced_substitute (reduced_combine _ _ _))
    (reduced_combine _ _ _)
  · exact weigh_combine _ left sign right
  · intro label
    simp only [coefficient_substitute, coefficient_combine]
    split
    · rw [Int64.mul_zero, Int64.add_zero]
    · rfl

theorem substitute_symbol_of_find? {label : Text} {address : Int}
    (found : addresses.find? label = some address) :
    (symbol label).substitute addresses =
      constant (Int64.ofInt address) := by
  apply eq_of_reduced (reduced_substitute (reduced_symbol label))
    (reduced_constant _)
  · change (symbol label).weigh (addressWord addresses) = _
    rw [weigh_symbol, addressWord, found]
    rfl
  · intro other
    have known : addresses.contains label = true := by
      rw [Table.contains, found]
      rfl
    rw [coefficient_substitute, coefficient_symbol, coefficient_constant]
    split
    · rfl
    · next unknown =>
      rw [if_neg]
      rintro rfl
      exact unknown known

theorem substitute_symbol_of_unknown {label : Text}
    (unknown : addresses.find? label = none) :
    (symbol label).substitute addresses = symbol label := by
  apply eq_of_reduced (reduced_substitute (reduced_symbol label))
    (reduced_symbol label)
  · change (symbol label).weigh (addressWord addresses) = _
    rw [weigh_symbol, addressWord, unknown]
    rfl
  · intro other
    rw [coefficient_substitute, coefficient_symbol]
    split
    · next known =>
      rw [if_neg]
      rintro rfl
      rw [Table.contains, unknown] at known
      cases known
    · rfl

/-- A value whose labels all have addresses becomes its constant value. -/
theorem isConstant_substitute {value : SymInt}
    (known : ∀ label, value.coefficient label ≠ 0 →
      addresses.contains label = true) :
    (value.substitute addresses).isConstant = true := by
  apply isConstant_iff.2
  intro label
  rw [coefficient_substitute]
  split
  · rfl
  · next unknown =>
    by_contra used
    exact unknown (known label used)

/-- A constant stays one, with the same base. -/
theorem base_substitute_of_isConstant {value : SymInt}
    (fixed : value.isConstant = true) :
    (value.substitute addresses).base = value.base :=
  weigh_of_isConstant fixed _

end SymInt

/-! ## Replacing the values of statements -/

/-- Replace the values of an operand. -/
def Operand.mapValues (replace : SymInt → SymInt) : Operand → Operand
  | .register direct => .register direct
  | .displacement value => .displacement (replace value)
  | .indirect pointer => .indirect pointer
  | .indirectDisplacement pointer value =>
      .indirectDisplacement pointer (replace value)

/-- Replace the values of an argument. -/
def Argument.mapValues (replace : SymInt → SymInt) :
    Argument → Argument
  | .string bytes => .string bytes
  | .operand content => .operand (content.mapValues replace)

/-- Replace the values of an operation. -/
def Operation.mapValues (replace : SymInt → SymInt) :
    Operation → Operation
  | .data items => .data (items.map replace)
  | .jump opcode width target => .jump opcode width (replace target)
  | .reversible pair width left right reversed =>
      .reversible pair width (left.map (Operand.mapValues replace)) right
        reversed
  | .unary opcode width operand =>
      .unary opcode width (operand.map (Operand.mapValues replace))
  | .nullary opcode width => .nullary opcode width

/-- Replace the values of a statement. -/
def Item.mapValues (replace : SymInt → SymInt) : Item → Item
  | .label line name => .label line name
  | .instruction content =>
      .instruction ⟨content.line, content.operation.mapValues replace⟩

@[simp]
theorem Operand.register?_mapValues (replace : SymInt → SymInt)
    (operand : Operand) :
    (operand.mapValues replace).register? = operand.register? := by
  cases operand <;> rfl

end FlatAsm
