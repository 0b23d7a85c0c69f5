import FlatAsm.Proofs.AssemblyOutcome

/-!
# Instructions of a parser can be encoded

An encoder does not look at the widths of registers, and it relies on operands
being there.  What a parser hands out is fit for it: the machine has the width
of every instruction, and all registers of an instruction have that width; no
operand is missing; and the reverse opcode of a pair is the one after the
normal one.  So the only thing that can go wrong is that a constant in data is
no byte.
-/

namespace FlatAsm

namespace Operation

/-- The width of an operation; data has none. -/
def width? : Operation → Option Width
  | .data _ => none
  | .jump _ width _ => some width
  | .reversible _ width _ _ _ => some width
  | .unary _ width _ => some width
  | .nullary _ width => some width

/-- The registers that an operation names. -/
def registers : Operation → List Register
  | .reversible _ _ left right _ =>
      (left.bind Operand.register?).toList ++ [right]
  | .unary _ _ operand => (operand.bind Operand.register?).toList
  | _ => []

/-- The symbolic integers of an operation. -/
def values : Operation → List SymInt
  | .data items => items
  | .jump _ _ target => [target]
  | .reversible _ _ left _ _ => (left.bind Operand.displacement?).toList
  | .unary _ _ operand => (operand.bind Operand.displacement?).toList
  | .nullary _ _ => []

/--
The operands are there, and the opcodes of a pair are neighbours.

If the register was written first, the other operand is no register.
-/
def HasOperands : Operation → Prop
  | .reversible pair _ left _ reversed =>
      pair.reverse.code = pair.normal.code + 1 ∧
        ∃ operand, left = some operand ∧
          (reversed = true → ∀ register, operand ≠ .register register)
  | .unary _ _ operand => ∃ present, operand = some present
  | _ => True

/-- An operation is fit for being encoded. -/
structure WellFormed (default : Width) (operation : Operation) : Prop where
  supported : ∀ width, operation.width? = some width →
    width = .byte ∨ width = .word
  registers : ∀ width, operation.width? = some width →
    ∀ register ∈ operation.registers, register.width = width
  /-- The default is the width of operations that name no register. -/
  fallback : ∀ width, operation.width? = some width →
    operation.registers = [] → width = default
  values : ∀ value ∈ operation.values, value.Reduced
  operands : operation.HasOperands

theorem isSupported_iff {width : Width} :
    width.isSupported = true ↔ width = .byte ∨ width = .word := by
  rw [Width.isSupported, Bool.or_eq_true, decide_eq_true_iff,
    decide_eq_true_iff]

/-- The two opcodes of a pair stand next to each other. -/
theorem reverse_eq_opcode_add_one {mnemonic : Mnemonic}
    (known : mnemonic ∈ Mnemonic.all)
    (category :
      mnemonic.category = .step ∨ mnemonic.category = .reversible) :
    mnemonic.reverse.code = mnemonic.opcode.code + 1 := by
  revert mnemonic
  decide

/-- Operations of the machine are fit for being encoded. -/
theorem OfMachine.wellFormed {default : Width} {operation : Operation}
    (supported : default.isSupported = true)
    (ofMachine : operation.OfMachine default) :
    operation.WellFormed default := by
  cases ofMachine with
  | data reduced => exact ⟨nofun, nofun, nofun, reduced, trivial⟩
  | jump _ _ reduced =>
      refine ⟨?_, nofun, ?_, ?_, trivial⟩
      · rintro _ ⟨⟩
        exact isSupported_iff.1 supported
      · rintro _ ⟨⟩ -
        rfl
      · intro value member
        rw [List.mem_singleton.1 member]
        exact reduced
  | @reversible mnemonic width left right reversed known category
      leftOfMachine leftWidth rightOfMachine rightWidth direction =>
      refine ⟨?_, ?_, ?_, ?_, reverse_eq_opcode_add_one known category, left,
        rfl, direction⟩
      · rintro _ ⟨⟩
        rw [← rightWidth]
        exact isSupported_iff.1 (registers_supported rightOfMachine)
      · rintro _ ⟨⟩ register member
        rcases List.mem_append.1 member with ofLeft | ofRight
        · exact leftWidth register (Option.mem_toList.1 ofLeft)
        · rw [List.mem_singleton.1 ofRight]
          exact rightWidth
      · intro _ _ none
        exact absurd none (by simp [Operation.registers])
      · intro value member
        exact leftOfMachine.values value (Option.mem_toList.1 member)
  | @unary mnemonic width operand known category operandOfMachine
      operandWidth fallback =>
      refine ⟨?_, ?_, ?_, ?_, operand, rfl⟩
      · rintro _ ⟨⟩
        exact isSupported_iff.1 (width_supported supported operandOfMachine
          operandWidth fallback)
      · rintro _ ⟨⟩ register member
        exact operandWidth register (Option.mem_toList.1 member)
      · rintro _ ⟨⟩ none
        exact fallback (Option.toList_eq_nil_iff.1 none)
      · intro value member
        exact operandOfMachine.values value (Option.mem_toList.1 member)
  | nullary =>
      refine ⟨?_, nofun, ?_, nofun, trivial⟩
      · rintro _ ⟨⟩
        exact isSupported_iff.1 supported
      · rintro _ ⟨⟩ -
        rfl

/-- The operation is data with a constant that is no byte. -/
def ExceedsBytes (operation : Operation) : Prop :=
  ∃ items, operation = .data items ∧ ∃ item ∈ items,
    item.isConstant = true ∧ (item.base < 0 ∨ 255 < item.base)

end Operation

theorem Instruction.encode_eq_error_iff {default : Width}
    {content : Instruction}
    (ofMachine : content.operation.OfMachine default) {fault : Error} :
    content.encode = .error fault ↔
      content.operation.ExceedsBytes ∧
        fault = .operand content.line (Text.ascii "data") .dataRange := by
  have exceeds : content.operation.ExceedsBytes ↔
      content.operation.encode = .error .dataRange := by
    rw [Operation.encode_eq_error_iff ofMachine, Operation.ExceedsBytes]
    simp only [not_isByte_iff, Bool.or_eq_true, decide_eq_true_iff, true_and]
  rw [exceeds, Instruction.encode]
  cases encoded : content.operation.encode with
  | ok code => simp
  | error cause =>
      obtain ⟨items, isData, rfl, -⟩ :=
        (Operation.encode_eq_error_iff ofMachine).1 encoded
      simp [isData, Operation.mnemonic, eq_comm]

/--
Whatever the parser of a text hands out, also after errors, is fit for being
encoded.  Encoding it fails only for constants that are no bytes.
-/
theorem Parser.yields_encodable {evaluator : Option Evaluator}
    {width : Width} {constants : Table Int64} {text : Text}
    {content : Instruction} (supported : width.isSupported = true)
    (yielded : (ofText evaluator width constants text).Yields
      (.instruction content)) :
    content.operation.WellFormed width ∧
      ∀ fault, content.encode = .error fault ↔
        content.operation.ExceedsBytes ∧
          fault = .operand content.line (Text.ascii "data") .dataRange := by
  have ofMachine : content.operation.OfMachine width :=
    yields_ofMachine yielded
  exact ⟨ofMachine.wellFormed supported,
    fun _ => Instruction.encode_eq_error_iff ofMachine⟩

namespace Parser

/-- A parser of a faulty line and two instructions. -/
def afterFault : Parser :=
  ofText none .byte ∅
    (Text.ascii "inc 5\nsub ebx, [ecx:x-1]\ndata x, 256")

/-- Subtract from a register what is in memory, at a distance from another. -/
def subtraction : Instruction :=
  ⟨2, .reversible ⟨⟨2⟩, ⟨3⟩⟩ .word
    (some (.indirectDisplacement ⟨2, .word⟩
      ⟨-1, Table.ofList [(Text.ascii "x", 1)]⟩)) ⟨1, .word⟩ true⟩

/-- Data of which one item is no byte. -/
def excess : Instruction :=
  ⟨3, .data [.symbol (Text.ascii "x"), .constant 256]⟩

/-- After a fault, one instruction is encoded and another one is not. -/
theorem afterFault_encodable :
    afterFault.next.1.isOk = false ∧
      subtraction.operation.WellFormed .byte ∧
      subtraction.encode.isOk = true ∧
      excess.operation.WellFormed .byte ∧
      excess.encode =
        .error (.operand 3 (Text.ascii "data") .dataRange) := by
  have first : afterFault.Yields (.instruction subtraction) :=
    Reaches.start.next.yields (by decide +kernel)
  have second : afterFault.Yields (.instruction excess) :=
    Reaches.start.next.next.yields (by decide +kernel)
  obtain ⟨fit, -⟩ := yields_encodable rfl first
  obtain ⟨fitToo, fails⟩ := yields_encodable rfl second
  refine ⟨by decide +kernel, fit, rfl, fitToo, (fails _).2 ⟨?_, rfl⟩⟩
  exact ⟨_, rfl, .constant 256, by simp, by decide, .inr (by decide)⟩

end Parser

end FlatAsm
