import FlatAsm.Proofs.LineAnswers

/-!
# The order of operands

A reversible instruction takes a register and another operand in either
order.  Both orders are accepted for the same operands.  Their codes differ
in the opcode alone, and the opcode of the order with the register in front
is the one after that of the other order.
-/

namespace FlatAsm

/-- The codes of two instructions that differ in the order of operands. -/
structure Code.Mirrored (pair : Opcode.Pair) (width : Width)
    (code mirrored : Code) : Prop where
  fields : mirrored.fields = code.fields
  size : mirrored.size = code.size
  /-- The opcodes are those of the pair, and the addressing is the same. -/
  bytes : ∃ addressing : ModRM,
    code.bytes = [pair.normal.encode width, addressing.byte] ∧
      mirrored.bytes = [pair.reverse.encode width, addressing.byte]
  /-- The opcodes are neighbours. -/
  opcodes : (pair.reverse.encode width).toNat =
    (pair.normal.encode width).toNat + 1

/-- The operand names a register of another width. -/
def Operand.Conflicts (operand : Operand) (width : Width) : Prop :=
  ∃ named, operand.register? = some named ∧ named.width ≠ width

namespace Operation

variable {default : Width} {mnemonic : Mnemonic} {operand : Operand}
  {register : Register} {operands : List Operand}

theorem hasWidth_iff_not_conflicts {width : Width} :
    operand.HasWidth width ↔ ¬operand.Conflicts width := by
  simp [Operand.HasWidth, Operand.Conflicts]

theorem commonWidth_of_conflicts
    (pair : operands = [operand, .register register] ∨
      operands = [.register register, operand])
    (conflicts : operand.Conflicts register.width) :
    commonWidth default operands = .error .operandWidth := by
  obtain ⟨named, names, differ⟩ := conflicts
  have direct : (Operand.register register).register? = some register := rfl
  rcases pair with rfl | rfl <;>
    simp [commonWidth, names, direct, differ, Ne.symm differ]

/-- Registers of different widths are refused in either order. -/
theorem ofArguments_of_conflicts (count : SymInt)
    (category : mnemonic.category = .reversible)
    (pair : operands = [operand, .register register] ∨
      operands = [.register register, operand])
    (conflicts : operand.Conflicts register.width) :
    ofArguments default mnemonic count (operands.map .operand) =
      .error .operandWidth := by
  rw [ofArguments_eq_operands (by simp [category]) (by simp [category]),
    mapM_asOperand_iff.2 rfl]
  change (commonWidth default operands >>= _) = _
  rw [commonWidth_of_conflicts pair conflicts]
  rfl

/-- The opcodes of a pair are neighbours at every width. -/
theorem toNat_encode_reverse (known : mnemonic ∈ Mnemonic.all)
    (category : mnemonic.category = .reversible) (width : Width) :
    (mnemonic.pair.reverse.encode width).toNat =
      (mnemonic.pair.normal.encode width).toNat + 1 := by
  have neighbours : ∀ mnemonic ∈ Mnemonic.all,
      mnemonic.category = .reversible → ∀ offset ∈ [(0 : UInt8), 0x20],
        ((mnemonic.reverse.code % 0x100).toNat.toUInt8 + offset).toNat =
          ((mnemonic.opcode.code % 0x100).toNat.toUInt8 + offset).toNat +
            1 := by
    decide +kernel
  refine neighbours mnemonic known category width.opcodeOffset ?_
  unfold Width.opcodeOffset
  split <;> simp

/-- The two orders of operands are encoded alike. -/
theorem encode_mirrored (known : mnemonic ∈ Mnemonic.all)
    (category : mnemonic.category = .reversible) (width : Width)
    (operand : Operand) (register : Register) :
    ∃ code mirrored,
      encode (.reversible mnemonic.pair width (some operand) register
        false) = .ok code ∧
      encode (.reversible mnemonic.pair width (some operand) register
        true) = .ok mirrored ∧
      code.Mirrored mnemonic.pair width mirrored :=
  ⟨_, _, rfl, rfl, rfl, rfl, ⟨operand.modrm register, rfl, rfl⟩,
    toNat_encode_reverse known category width⟩

end Operation

namespace Parser

/-- The answers to a register and another operand in either order. -/
structure AnswersMirrored (parser other : Parser) (line otherLine : Int)
    (mnemonic : Mnemonic) (operand : Operand) (register : Register) :
    Prop where
  refused : operand.Conflicts register.width →
    parser.next.1 =
        .error (.operand line mnemonic.name .operandWidth) ∧
      other.next.1 =
        .error (.operand otherLine mnemonic.name .operandWidth)
  accepted : ¬operand.Conflicts register.width →
    ∃ operation mirrored code mirroredCode,
      parser.next.1 = .ok (some (.instruction ⟨line, operation⟩)) ∧
        other.next.1 = .ok (some (.instruction ⟨otherLine, mirrored⟩)) ∧
        (⟨line, operation⟩ : Instruction).encode = .ok code ∧
        (⟨otherLine, mirrored⟩ : Instruction).encode = .ok mirroredCode ∧
        code.Mirrored mnemonic.pair register.width mirroredCode

/--
A register and another operand may stand in either order.  The order decides
which opcode of a pair is used, and nothing else.
-/
theorem next_mirrored {parser other : Parser} {line otherLine : Int}
    {mnemonic : Mnemonic} {operand : Operand} {register : Register}
    (known : mnemonic ∈ Mnemonic.all)
    (category : mnemonic.category = .reversible)
    (notDirect : ∀ direct, operand ≠ .register direct)
    (faces : parser.FacesInstruction line mnemonic
      [.operand operand, .operand (.register register)])
    (mirrors : other.FacesInstruction otherLine mnemonic
      [.operand (.register register), .operand operand]) :
    AnswersMirrored parser other line otherLine mnemonic operand
      register := by
  have once : mnemonic.category ≠ .times := by simp [category]
  have answer := faces.next once
  have mirrored := mirrors.next once
  constructor
  case refused =>
    intro conflicts
    have failed (width : Width) {operands : List Operand} pair :=
      @Operation.ofArguments_of_conflicts width mnemonic operand register
        operands (.constant 0) category pair conflicts
    constructor
    · rw [answer]
      exact congrArg _ (failed parser.width (.inl rfl))
    · rw [mirrored]
      exact congrArg _ (failed other.width (.inr rfl))
  case accepted =>
    intro agrees
    have sameWidth := Operation.hasWidth_iff_not_conflicts.2 agrees
    rw [(Operation.ofArguments_eq_ok_iff once).2
      (.registerLast category sameWidth)] at answer
    rw [(Operation.ofArguments_eq_ok_iff once).2
      (.registerFirst category notDirect sameWidth)] at mirrored
    obtain ⟨code, mirroredCode, encoded, mirroredEncoded, law⟩ :=
      Operation.encode_mirrored known category register.width operand
        register
    refine ⟨_, _, code, mirroredCode, answer, mirrored, ?_, ?_, law⟩
    · rw [Instruction.encode, encoded]
    · rw [Instruction.encode, mirroredEncoded]

/-- The memory at a negative distance from a pointer. -/
def distant : Operand :=
  .indirectDisplacement ⟨2, .word⟩ (SymInt.symbol (Text.ascii "x")).neg

/-- A parser of a shift, and one of the same shift the other way round. -/
def shifts : Parser × Parser :=
  (ofText none .byte ∅ (Text.ascii "shl [ecx:-x], eax"),
    ofText none .byte ∅ (Text.ascii "\nSHL eax, [-x:ecx]"))

/-- The token of a mark. -/
def shiftMark (line : Int) (mark : Mark) : Token :=
  ⟨.punctuation mark, line, [mark.byte]⟩

/-- The token of a register. -/
def shiftRegister (line : Int) (name : String) (code : Int) : Token :=
  ⟨.register ⟨code, .word⟩, line, Text.ascii name⟩

/-- The tokens of a negative distance. -/
def shiftDistance (line : Int) : List Token :=
  [shiftMark line .minus, ⟨.identifier, line, Text.ascii "x"⟩]

/-- A shift takes its pointer and its register in either order. -/
theorem shifts_mirrored :
    ¬distant.Conflicts .word ∧
      AnswersMirrored shifts.1 shifts.2 1 2 (.paired "shl" .reversible 19)
        distant ⟨0, .word⟩ := by
  have agrees : ¬distant.Conflicts .word := by
    rintro ⟨named, names, differs⟩
    cases names
    exact differs rfl
  have distance (line : Int) : Grammar.IsExpression ∅ (shiftDistance line)
      (SymInt.symbol (Text.ascii "x")).neg :=
    .term (.negated rfl (.label rfl rfl))
  have first : shifts.1.FacesInstruction 1 (.paired "shl" .reversible 19)
      [.operand distant, .operand (.register ⟨0, .word⟩)] :=
    ⟨⟨.mnemonic (.paired "shl" .reversible 19), 1, Text.ascii "shl"⟩,
      (shiftMark 1 .openBracket :: shiftRegister 1 "ecx" 2 ::
        shiftMark 1 .colon :: (shiftDistance 1 ++
          [shiftMark 1 .closeBracket])) ++ shiftMark 1 .comma ::
        [shiftRegister 1 "eax" 0],
      ⟨[], ⟨.endOfText, 1, []⟩, [], by decide +kernel, by simp, rfl⟩,
      rfl, rfl,
      .some (.further
        (.address (.registerFirst rfl rfl rfl (distance 1) rfl)) rfl
        (.last (.register rfl)))⟩
  have second : shifts.2.FacesInstruction 2
      (.paired "shl" .reversible 19)
      [.operand (.register ⟨0, .word⟩), .operand distant] :=
    ⟨⟨.mnemonic (.paired "shl" .reversible 19), 2, Text.ascii "SHL"⟩,
      [shiftRegister 2 "eax" 0] ++ shiftMark 2 .comma ::
        (shiftMark 2 .openBracket :: (shiftDistance 2 ++
          [shiftMark 2 .colon, shiftRegister 2 "ecx" 2,
            shiftMark 2 .closeBracket])),
      ⟨[⟨.newline, 1, [0x0a]⟩], ⟨.endOfText, 2, []⟩, [],
        by decide +kernel, by simp, rfl⟩, rfl, rfl,
      .some (.further (.register rfl) rfl
        (.last (.address (.registerLast rfl (distance 2) rfl rfl rfl))))⟩
  exact ⟨agrees, next_mirrored (by decide) rfl nofun first second⟩

end Parser

end FlatAsm
