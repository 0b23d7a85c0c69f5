import FlatAsm.Proofs.ReferenceEquivalence

/-!
# Decoding machine code

The first byte of an instruction tells its width and its opcode, and the
opcode tells which operands there are.  The addressing byte tells the kind of
the left operand, and thereby whether a field follows, which is as long as
the instruction is wide.  So the code of an instruction can be read off the
front of any bytes, whatever follows it.

This module has a decoder for all instructions but data, and proves that it
gives back what was encoded, up to the part of a value that does not fit into
its field.
-/

namespace FlatAsm

/-! ## The decoder -/

/-- What the opcode of an instruction tells. -/
inductive Form where
  | jump (opcode : Opcode)
  | reversible (pair : Opcode.Pair) (reversed : Bool)
  | unary (opcode : Opcode)
  | nullary (opcode : Opcode)
  deriving DecidableEq

namespace Form

def opcode : Form → Opcode
  | .jump opcode => opcode
  | .reversible pair reversed => pair.select reversed
  | .unary opcode => opcode
  | .nullary opcode => opcode

/-- The forms of instructions with a mnemonic; data has no opcode. -/
def ofMnemonic (mnemonic : Mnemonic) : List Form :=
  match mnemonic.category with
  | .data | .times => []
  | .jump => [.jump mnemonic.opcode]
  | .step | .reversible =>
      [.reversible mnemonic.pair false, .reversible mnemonic.pair true]
  | .unary => [.unary mnemonic.opcode]
  | .nullary => [.nullary mnemonic.opcode]

/-- The forms of all instructions of the machine. -/
def all : List Form :=
  Mnemonic.all.flatMap ofMnemonic

/-- The form and the width that an opcode byte stands for. -/
def ofByte? (byte : UInt8) : Option (Form × Width) :=
  let width : Width := if byte < 0x20 then .byte else .word
  (all.find? fun form => form.opcode.encode width = byte).map
    fun form => (form, width)

end Form

namespace Decoder

/-- Read a field of the given width. -/
def field (width : Width) (bytes : List UInt8) :
    Option (SymInt × List UInt8) :=
  if bytes.length < width.size then none
  else
    some (.constant (LittleEndian.read (bytes.take width.size)).toInt64,
      bytes.drop width.size)

/-- Read what follows the addressing byte of an operand. -/
def operand (mode : Mode) (register : Register) (bytes : List UInt8) :
    Option (Operand × List UInt8) :=
  match mode with
  | .register => some (.register register, bytes)
  | .atRegister => some (.indirect register, bytes)
  | .atRegisterDisplaced =>
      (field register.width bytes).map fun found =>
        (.indirectDisplacement register found.1, found.2)
  | .displacement =>
      (field register.width bytes).map fun found =>
        (.displacement found.1, found.2)

/-- Read an addressing byte and the operand that it belongs to. -/
def addressed (width : Width) :
    List UInt8 → Option (Operand × Register × List UInt8)
  | [] => none
  | byte :: rest =>
      let modrm : ModRM := ⟨byte⟩
      (operand modrm.mode ⟨modrm.left, width⟩ rest).map fun found =>
        (found.1, ⟨modrm.right, width⟩, found.2)

/-- Read what follows the opcode byte of an instruction. -/
def rest (form : Form) (width : Width) (bytes : List UInt8) :
    Option (Operation × List UInt8) :=
  match form with
  | .jump opcode =>
      (field width bytes).map fun found =>
        (.jump opcode width found.1, found.2)
  | .reversible pair reversed =>
      (addressed width bytes).map fun found =>
        (.reversible pair width (some found.1) found.2.1 reversed,
          found.2.2)
  | .unary opcode =>
      (addressed width bytes).map fun found =>
        (.unary opcode width (some found.1), found.2.2)
  | .nullary opcode => some (.nullary opcode width, bytes)

/-- Read an instruction. -/
def operation : List UInt8 → Option (Operation × List UInt8)
  | [] => none
  | first :: bytes =>
      match Form.ofByte? first with
      | none => none
      | some (form, width) => rest form width bytes

theorem length_field {width : Width} {bytes : List UInt8}
    {found : SymInt × List UInt8}
    (read : field width bytes = some found) :
    found.2.length ≤ bytes.length := by
  rw [field] at read
  split at read <;> cases read
  rw [List.length_drop]
  exact Nat.sub_le _ _

theorem length_operand {mode : Mode} {register : Register}
    {bytes : List UInt8} {found : Operand × List UInt8}
    (read : operand mode register bytes = some found) :
    found.2.length ≤ bytes.length := by
  cases mode with
  | register =>
      cases read
      exact Nat.le_refl _
  | atRegister =>
      cases read
      exact Nat.le_refl _
  | atRegisterDisplaced =>
      rcases Option.map_eq_some_iff.1 read with ⟨value, taken, rfl⟩
      exact length_field taken
  | displacement =>
      rcases Option.map_eq_some_iff.1 read with ⟨value, taken, rfl⟩
      exact length_field taken

theorem length_addressed {width : Width} {bytes : List UInt8}
    {found : Operand × Register × List UInt8}
    (read : addressed width bytes = some found) :
    found.2.2.length ≤ bytes.length := by
  cases bytes with
  | nil => cases read
  | cons byte bytes =>
      rcases Option.map_eq_some_iff.1 read with ⟨value, taken, rfl⟩
      exact Nat.le_succ_of_le (length_operand taken)

/-- An instruction takes at least one byte. -/
theorem length_operation {bytes : List UInt8}
    {found : Operation × List UInt8}
    (read : operation bytes = some found) :
    found.2.length < bytes.length := by
  cases bytes with
  | nil => cases read
  | cons first bytes =>
      rw [operation] at read
      split at read
      · cases read
      · next form width _ =>
        apply Nat.lt_succ_of_le
        cases form with
        | jump opcode =>
            rcases Option.map_eq_some_iff.1 read with ⟨_, taken, rfl⟩
            exact length_field taken
        | reversible pair reversed =>
            rcases Option.map_eq_some_iff.1 read with ⟨_, taken, rfl⟩
            exact length_addressed taken
        | unary opcode =>
            rcases Option.map_eq_some_iff.1 read with ⟨_, taken, rfl⟩
            exact length_addressed taken
        | nullary opcode =>
            cases read
            exact Nat.le_refl _

/-- Read instructions up to the end of the bytes. -/
def operations (bytes : List UInt8) : Option (List Operation) :=
  if bytes.isEmpty then some []
  else
    match _read : operation bytes with
    | none => none
    | some (first, others) => (operations others).map (first :: ·)
termination_by bytes.length
decreasing_by exact length_operation _read

theorem operations_nil : operations [] = some [] := by
  rw [operations]
  rfl

theorem operations_of_operation {bytes others : List UInt8}
    {first : Operation}
    (read : operation bytes = some (first, others)) :
    operations bytes = (operations others).map (first :: ·) := by
  rw [operations]
  cases bytes with
  | nil => cases read
  | cons byte bytes =>
      rw [if_neg (by simp)]
      split
      · next none => cases read.symm.trans none
      · next again =>
        cases read.symm.trans again
        rfl

end Decoder

/-! ## What codes tell about instructions -/

/--
The bases agree as far as they fit into a field.

The base of a constant is its value.
-/
def SymInt.Congruent (width : Width) (left right : SymInt) : Prop :=
  left.base.toInt % 2 ^ (8 * width.size) =
    right.base.toInt % 2 ^ (8 * width.size)

/-- The same kind of operand with the same register, if any. -/
inductive Operand.Agrees (width : Width) : Operand → Operand → Prop where
  | register (direct : Register) :
      Agrees width (.register direct) (.register direct)
  | displacement {value other : SymInt}
      (values : value.Congruent width other) :
      Agrees width (.displacement value) (.displacement other)
  | indirect (pointer : Register) :
      Agrees width (.indirect pointer) (.indirect pointer)
  | indirectDisplacement (pointer : Register) {value other : SymInt}
      (values : value.Congruent width other) :
      Agrees width (.indirectDisplacement pointer value)
        (.indirectDisplacement pointer other)

/--
The same instruction, up to what does not fit into its field.

The class, the opcode or the pair with its direction, the width and all
registers are the same.
-/
inductive Operation.Agrees : Operation → Operation → Prop where
  | jump (opcode : Opcode) (width : Width) {target other : SymInt}
      (targets : target.Congruent width other) :
      Agrees (.jump opcode width target) (.jump opcode width other)
  | reversible (pair : Opcode.Pair) (width : Width)
      {left other : Operand} (right : Register) (reversed : Bool)
      (operands : left.Agrees width other) :
      Agrees (.reversible pair width (some left) right reversed)
        (.reversible pair width (some other) right reversed)
  | unary (opcode : Opcode) (width : Width) {operand other : Operand}
      (operands : operand.Agrees width other) :
      Agrees (.unary opcode width (some operand))
        (.unary opcode width (some other))
  | nullary (opcode : Opcode) (width : Width) :
      Agrees (.nullary opcode width) (.nullary opcode width)

theorem Operand.Agrees.of_common {width : Width}
    {first second decoded : Operand} (left : first.Agrees width decoded)
    (right : second.Agrees width decoded) : first.Agrees width second := by
  cases left with
  | register direct =>
      cases right
      exact .register direct
  | displacement values =>
      cases right with
      | displacement others => exact .displacement (values.trans others.symm)
  | indirect pointer =>
      cases right
      exact .indirect pointer
  | indirectDisplacement pointer values =>
      cases right with
      | indirectDisplacement _ others =>
          exact .indirectDisplacement pointer (values.trans others.symm)

/-- What agrees with the same decoded operation agrees with each other. -/
theorem Operation.Agrees.of_common {first second decoded : Operation}
    (left : first.Agrees decoded) (right : second.Agrees decoded) :
    first.Agrees second := by
  cases left with
  | jump opcode width targets =>
      cases right with
      | jump _ _ others => exact .jump opcode width (targets.trans others.symm)
  | reversible pair width register reversed operands =>
      cases right with
      | reversible _ _ _ _ others =>
          exact .reversible pair width register reversed
            (operands.of_common others)
  | unary opcode width operands =>
      cases right with
      | unary _ _ others =>
          exact .unary opcode width (operands.of_common others)
  | nullary opcode width =>
      cases right
      exact .nullary opcode width

/-! ## Decoding what was encoded -/

namespace Form

/-- Every opcode byte tells its form and its width. -/
theorem ofByte?_encode {form : Form} {width : Width}
    (known : form ∈ all) (supported : width.isSupported = true) :
    ofByte? (form.opcode.encode width) = some (form, width) := by
  -- no number reaches 0x20, so the two ranges of opcode bytes are apart
  have bytes : ∀ form ∈ all,
      ofByte? (form.opcode.encode .byte) = some (form, .byte) := by
    decide
  have words : ∀ form ∈ all,
      ofByte? (form.opcode.encode .word) = some (form, .word) := by
    decide
  rcases Bool.or_eq_true_iff.1 supported with byte | word
  · rw [of_decide_eq_true byte]
    exact bytes form known
  · rw [of_decide_eq_true word]
    exact words form known

end Form

namespace ModRM

/-- The bits of an addressing byte do not overlap. -/
theorem toNat_pack (mode : Mode) {left right : Int}
    (leftBounds : 0 ≤ left ∧ left < 8)
    (rightBounds : 0 ≤ right ∧ right < 8) :
    ((pack mode.code left right).byte.toNat : Int) =
      mode.code * 0x40 + left * 8 + right := by
  have bounds : 0 ≤ mode.code ∧ mode.code < 4 := by
    cases mode <;> decide
  have size : (mode.code % 4 * 0x40 + left % 8 * 8 + right % 8).toNat <
      0x100 := by
    omega
  rw [pack, Nat.toUInt8, UInt8.toNat_ofNat_of_lt' size]
  omega

theorem mode_pack (mode : Mode) {left right : Int}
    (leftBounds : 0 ≤ left ∧ left < 8)
    (rightBounds : 0 ≤ right ∧ right < 8) :
    (pack mode.code left right).mode = mode := by
  have packed := toNat_pack mode leftBounds rightBounds
  have quotient : ((pack mode.code left right).byte.toNat / 0x40 : Nat) =
      mode.code.toNat := by
    cases mode <;> simp only [Mode.code] at packed ⊢ <;> omega
  rw [ModRM.mode, quotient]
  cases mode <;> rfl

theorem left_pack (mode : Mode) {left right : Int}
    (leftBounds : 0 ≤ left ∧ left < 8)
    (rightBounds : 0 ≤ right ∧ right < 8) :
    (pack mode.code left right).left = left := by
  have packed := toNat_pack mode leftBounds rightBounds
  rw [ModRM.left, packed]
  omega

theorem right_pack (mode : Mode) {left right : Int}
    (leftBounds : 0 ≤ left ∧ left < 8)
    (rightBounds : 0 ≤ right ∧ right < 8) :
    (pack mode.code left right).right = right := by
  have packed := toNat_pack mode leftBounds rightBounds
  rw [ModRM.right, packed]
  omega

end ModRM

theorem Register.code_bounds {register : Register}
    (known : register ∈ Register.all) :
    0 ≤ register.code ∧ register.code < 8 := by
  revert register
  decide

theorem Operand.code_bounds {operand : Operand}
    (ofMachine : operand.OfMachine) :
    0 ≤ operand.code ∧ operand.code < 8 := by
  rw [Operand.code]
  cases named : operand.register? with
  | none => decide
  | some register =>
      exact Register.code_bounds (ofMachine.registers register named)

/-- The bytes of a field that holds the base of its value. -/
def Field.written (field : Field) : List UInt8 :=
  LittleEndian.write field.width.size field.value.base.toUInt64

/-- The bytes of a code, as they are written. -/
def Code.written (code : Code) : List UInt8 :=
  code.bytes ++ code.fields.flatMap Field.written

theorem Code.render_baseWord {code : Code} (line : Int)
    (supported : ∀ field ∈ code.fields,
      field.width.isSupported = true) :
    (code.segments line).flatMap (Segment.render Segment.baseWord) =
      code.written := by
  rw [Code.segments, List.flatMap_cons, List.flatMap_map, Code.written]
  refine congrArg (code.bytes ++ ·) (List.flatMap_congr ?_)
  intro field member
  exact Width.holding_of_isSupported (supported field member) _

/-- Literal bytes are no instruction of the machine. -/
def Operation.isData : Operation → Bool
  | .data _ => true
  | _ => false

namespace Decoder

/-- A field gives back the value that was written to it. -/
theorem field_write {width : Width}
    (supported : width.isSupported = true) (value : SymInt)
    (rest : List UInt8) :
    ∃ found,
      field width
          (LittleEndian.write width.size value.base.toUInt64 ++ rest) =
        some (found, rest) ∧
      value.Congruent width found := by
  have short := Width.size_le_of_isSupported supported
  have length := LittleEndian.length_write width.size value.base.toUInt64
  refine ⟨.constant (LittleEndian.read (LittleEndian.write width.size
    value.base.toUInt64)).toInt64, ?_, ?_⟩
  · rw [field, if_neg (by simp), List.take_left' length,
      List.drop_left' length]
  · rw [SymInt.Congruent, LittleEndian.toInt_emod short,
      LittleEndian.toInt_emod short, SymInt.constant,
      UInt64.toUInt64_toInt64, LittleEndian.toNat_read_write,
      Nat.mod_mod]

/-- The fields of an operand give back the operand. -/
theorem operand_fields {operand : Operand} {width : Width}
    (supported : width.isSupported = true)
    (hasWidth : operand.HasWidth width) (rest : List UInt8) :
    ∃ found,
      Decoder.operand operand.mode ⟨operand.code, width⟩
          ((operand.fields width).flatMap Field.written ++ rest) =
        some (found, rest) ∧
      operand.Agrees width found := by
  cases operand with
  | register direct =>
      cases hasWidth direct rfl
      exact ⟨_, rfl, .register direct⟩
  | displacement value =>
      rcases field_write supported value rest with ⟨found, read, values⟩
      refine ⟨.displacement found, ?_, .displacement values⟩
      simp [Decoder.operand, Operand.mode, Operand.fields,
        Operand.displacement?, Field.written, read]
  | indirect pointer =>
      cases hasWidth pointer rfl
      exact ⟨_, rfl, .indirect pointer⟩
  | indirectDisplacement pointer value =>
      cases hasWidth pointer rfl
      rcases field_write supported value rest with ⟨found, read, values⟩
      refine ⟨.indirectDisplacement pointer found, ?_,
        .indirectDisplacement pointer values⟩
      simp [Decoder.operand, Operand.mode, Operand.code,
        Operand.register?, Operand.fields, Operand.displacement?,
        Field.written, read]

/-- An addressing byte and its fields give back both operands. -/
theorem addressed_written {operand : Operand} {right : Register}
    (supported : right.width.isSupported = true)
    (ofMachine : operand.OfMachine)
    (hasWidth : operand.HasWidth right.width)
    (rightBounds : 0 ≤ right.code ∧ right.code < 8)
    (rest : List UInt8) :
    ∃ found,
      addressed right.width ((operand.modrm right).byte ::
          ((operand.fields right.width).flatMap Field.written ++ rest)) =
        some (found, right, rest) ∧
      operand.Agrees right.width found := by
  have leftBounds := Operand.code_bounds ofMachine
  rcases operand_fields supported hasWidth rest with
    ⟨found, read, agrees⟩
  refine ⟨found, ?_, agrees⟩
  rw [addressed, Operand.modrm, ModRM.mode_pack _ leftBounds rightBounds,
    ModRM.left_pack _ leftBounds rightBounds,
    ModRM.right_pack _ leftBounds rightBounds, read]
  rfl

theorem operation_of_form {form : Form} {width : Width}
    (known : form ∈ Form.all) (supported : width.isSupported = true)
    (bytes : List UInt8) :
    operation (form.opcode.encode width :: bytes) =
      rest form width bytes := by
  rw [operation, Form.ofByte?_encode known supported]

/-- The code of an instruction gives back the instruction. -/
theorem operation_written {default : Width} {content : Operation}
    {code : Code} (supported : default.isSupported = true)
    (ofMachine : content.OfMachine default)
    (notData : content.isData = false)
    (encoded : content.encode = .ok code) (others : List UInt8) :
    ∃ decoded,
      operation (code.written ++ others) = some (decoded, others) ∧
        content.Agrees decoded := by
  cases ofMachine with
  | data => cases notData
  | @jump mnemonic target known category =>
      cases encoded
      have form : Form.jump mnemonic.opcode ∈ Form.all := by
        refine List.mem_flatMap.2 ⟨mnemonic, known, ?_⟩
        simp [Form.ofMnemonic, category]
      have bytes := operation_of_form form supported
        (Field.written ⟨target, default, false⟩ ++ others)
      rcases field_write supported target others with
        ⟨found, read, values⟩
      refine ⟨.jump mnemonic.opcode default found, ?_, .jump _ _ values⟩
      rw [rest, Field.written, read] at bytes
      simpa [Code.written, Field.written, Form.opcode] using bytes
  | @reversible mnemonic width left right reversed known category
      leftOfMachine leftWidth rightOfMachine rightWidth =>
      cases encoded
      cases rightWidth
      have form : Form.reversible mnemonic.pair reversed ∈ Form.all := by
        refine List.mem_flatMap.2 ⟨mnemonic, known, ?_⟩
        rcases category with category | category <;>
          cases reversed <;> simp [Form.ofMnemonic, category]
      have rightSupported := Operation.registers_supported rightOfMachine
      rcases addressed_written rightSupported leftOfMachine leftWidth
        (Register.code_bounds rightOfMachine) others with
        ⟨found, read, operands⟩
      have bytes := operation_of_form form rightSupported
        ((left.modrm right).byte ::
          ((left.fields right.width).flatMap Field.written ++ others))
      refine ⟨_, ?_, .reversible _ _ right reversed operands⟩
      rw [rest, read] at bytes
      simpa [Code.written, Form.opcode] using bytes
  | @unary mnemonic width operand known category operandOfMachine
      operandWidth fallback =>
      cases encoded
      have form : Form.unary mnemonic.opcode ∈ Form.all := by
        refine List.mem_flatMap.2 ⟨mnemonic, known, ?_⟩
        simp [Form.ofMnemonic, category]
      have widthSupported := Operation.width_supported supported
        operandOfMachine operandWidth fallback
      rcases @addressed_written operand (.accumulator width)
        widthSupported operandOfMachine operandWidth
        ⟨Int.le_refl 0, (by decide : (0 : Int) < 8)⟩ others with
        ⟨found, read, operands⟩
      have bytes := operation_of_form form widthSupported
        ((operand.modrm (.accumulator width)).byte ::
          ((operand.fields width).flatMap Field.written ++ others))
      refine ⟨_, ?_, .unary _ _ operands⟩
      rw [rest] at bytes
      rw [Register.accumulator] at bytes read
      rw [read] at bytes
      simpa [Code.written, Form.opcode, Register.accumulator] using bytes
  | @nullary mnemonic known category =>
      cases encoded
      have form : Form.nullary mnemonic.opcode ∈ Form.all := by
        refine List.mem_flatMap.2 ⟨mnemonic, known, ?_⟩
        simp [Form.ofMnemonic, category]
      have bytes := operation_of_form form supported others
      refine ⟨_, ?_, .nullary _ _⟩
      simpa [Code.written, Form.opcode, rest] using bytes

end Decoder

/-! ## Unique decodability -/

namespace Instruction

/-- A parser of some text, of either width, hands out the instruction. -/
def IsParsed (content : Instruction) : Prop :=
  ∃ evaluator width constants text, width.isSupported = true ∧
    (Parser.ofText evaluator width constants text).Yields
      (.instruction content)

/-- The bytes of an instruction that is written to an empty image. -/
def machineCode (content : Instruction) : Except Error (List UInt8) :=
  match content.encode with
  | .error fault => .error fault
  | .ok code =>
      match Image.empty.emit code content.line with
      | .error reason => .error (.breakdown reason)
      | .ok image => .ok image.data.toList

theorem machineCode_eq {content : Instruction} {code : Code}
    (encoded : content.encode = .ok code)
    (supported : ∀ field ∈ code.fields,
      field.width.isSupported = true) :
    content.machineCode = .ok code.written := by
  obtain ⟨image, emitted⟩ :=
    (Image.exists_emit_iff .empty code content.line).2
      (Code.hasMasks_of_supported supported)
  have made := Image.MadeOf.empty.emit emitted
  rw [machineCode, encoded]
  dsimp only
  rw [emitted]
  dsimp only
  rw [made.data, List.nil_append,
    Code.render_baseWord content.line supported]

/-- The code of a parsed instruction can be read back. -/
theorem IsParsed.decodes {content : Instruction}
    (parsed : content.IsParsed)
    (notData : content.operation.isData = false) :
    ∃ code, content.encode = .ok code ∧
      (∀ field ∈ code.fields, field.width.isSupported = true) ∧
      ∀ others, ∃ decoded,
        Decoder.operation (code.written ++ others) =
            some (decoded, others) ∧
          content.operation.Agrees decoded := by
  rcases parsed with
    ⟨evaluator, width, constants, text, supported, yielded⟩
  have ofMachine : content.operation.OfMachine width :=
    Parser.yields_ofMachine yielded
  cases encoded : content.operation.encode with
  | error cause =>
      rcases (Operation.encode_eq_error_iff ofMachine).1 encoded with
        ⟨values, data, -⟩
      rw [data] at notData
      cases notData
  | ok code =>
      refine ⟨code, Instruction.encode_eq_ok_iff.2 encoded,
        Operation.encode_supported supported ofMachine encoded, ?_⟩
      intro others
      exact Decoder.operation_written supported ofMachine notData encoded
        others

end Instruction

namespace Items

/-- The operations of the instructions among items. -/
def operations (items : List Item) : List Operation :=
  items.filterMap fun
    | .label _ _ => none
    | .instruction content => some content.operation

/-- All instructions can be parsed, and none of them is data. -/
def DataFree (items : List Item) : Prop :=
  ∀ content, .instruction content ∈ items →
    content.IsParsed ∧ content.operation.isData = false

/-- The codes of items one after the other give back the operations. -/
theorem DataFree.decodes {items : List Item} (dataFree : DataFree items) :
    ∃ decoded,
      Decoder.operations ((codes items).flatMap Code.written) =
          some decoded ∧
        List.Forall₂ Operation.Agrees (operations items) decoded := by
  induction items with
  | nil => exact ⟨[], Decoder.operations_nil, .nil⟩
  | cons item rest inductionHypothesis =>
      have later : DataFree rest := fun content member =>
        dataFree content (List.mem_cons_of_mem _ member)
      rcases inductionHypothesis later with ⟨others, read, agree⟩
      cases item with
      | label line name => exact ⟨others, read, agree⟩
      | instruction content =>
          rcases dataFree content List.mem_cons_self with
            ⟨parsed, notData⟩
          rcases parsed.decodes notData with ⟨code, encoded, -, decodes⟩
          rcases decodes ((codes rest).flatMap Code.written) with
            ⟨first, firstRead, firstAgrees⟩
          have front : codes (.instruction content :: rest) =
              code :: codes rest := by
            simp [codes, emissions, Item.emission?, encoded]
          refine ⟨first :: others, ?_, .cons firstAgrees agree⟩
          rw [front, List.flatMap_cons,
            Decoder.operations_of_operation firstRead, read]
          rfl

/-- The fields of parsed instructions are as wide as the machine has them. -/
theorem DataFree.supported {items : List Item}
    (dataFree : DataFree items) :
    ∀ emission ∈ emissions items, ∀ field ∈ emission.2.fields,
      field.width.isSupported = true := by
  intro emission member
  rcases List.mem_filterMap.1 member with ⟨item, inItems, emitted⟩
  unfold Item.emission? at emitted
  split at emitted
  · cases emitted
  · next content =>
    rcases dataFree content inItems with ⟨parsed, notData⟩
    rcases parsed.decodes notData with ⟨code, encoded, supported, -⟩
    rw [encoded] at emitted
    cases emitted
    exact supported

theorem DataFree.ofItems {items : List Item} (dataFree : DataFree items) :
    ∃ image decoded, Image.ofItems items = .ok image ∧
      Decoder.operations image.data.toList = some decoded ∧
      List.Forall₂ Operation.Agrees (operations items) decoded := by
  have encodes : ∀ content, Item.instruction content ∈ items →
      ∃ code, content.encode = .ok code ∧ code.HasMasks := by
    intro content member
    rcases dataFree content member with ⟨parsed, notData⟩
    rcases parsed.decodes notData with ⟨code, encoded, supported, -⟩
    exact ⟨code, encoded, Code.hasMasks_of_supported supported⟩
  rcases Image.ofItems_madeOf encodes with ⟨image, written, madeOf, -⟩
  rcases dataFree.decodes with ⟨decoded, read, agree⟩
  have bytes : image.data.toList =
      (codes items).flatMap Code.written := by
    rw [madeOf.data, segments, List.flatMap_assoc, codes,
      List.flatMap_map]
    apply List.flatMap_congr
    intro emission member
    exact Code.render_baseWord emission.1
      (dataFree.supported emission member)
  refine ⟨image, decoded, written, ?_, agree⟩
  rw [bytes, read]

end Items

namespace Operation

theorem isData_mapValues (replace : SymInt → SymInt)
    (operation : Operation) :
    (operation.mapValues replace).isData = operation.isData := by
  cases operation <;> rfl

end Operation

theorem Items.operations_mapValues (replace : SymInt → SymInt)
    (items : List Item) :
    operations (items.map (Item.mapValues replace)) =
      (operations items).map (Operation.mapValues replace) := by
  rw [operations, operations, List.filterMap_map, List.map_filterMap]
  apply List.filterMap_congr
  intro item _
  cases item <;> rfl

namespace Assembler

variable {language : FormulaLanguage} {assembler : Assembler}
  {text : Text} {program : Program} {items : List Item}
  {fault : Option Error}

/-- With known labels, the instructions of a program are parsed again. -/
theorem dataFree_of_assembleWith
    (assembled :
      assembler.assembleWith language (.ok text) = .ok program)
    (delivered :
      (assembler.parser language text).Delivers items fault)
    (notData : ∀ content, .instruction content ∈ items →
      content.operation.isData = false) :
    Items.DataFree
      (items.map (Item.mapValues (SymInt.substitute program.symbols))) := by
  have supported := supported_of_assembleWith assembled
  have disjoint := disjoint_of_assembleWith assembled delivered
  rcases laidOut_of_assembleWith assembled delivered with ⟨rfl, -⟩
  have again := delivered.withLabels disjoint
  intro content member
  refine ⟨⟨_, _, _, text, supported, again.yields .start _ member⟩, ?_⟩
  rcases List.mem_map.1 member with ⟨item, inItems, replaced⟩
  cases item with
  | label line name => cases replaced
  | instruction old =>
      cases replaced
      rw [Operation.isData_mapValues]
      exact notData old inItems

end Assembler

/--
Machine code can be decoded in one way only.

The codes of two instructions, whatever follows each of them, are the same
only if the instructions agree.  The decoder gives back the instructions of
every image that has no data, and of every program without data, where the
labels have been replaced by their addresses.
-/
theorem machineCode_uniquelyDecodable :
    (∀ first second : Instruction,
      first.IsParsed → first.operation.isData = false →
      second.IsParsed → second.operation.isData = false →
      ∃ firstCode secondCode,
        first.machineCode = .ok firstCode ∧
        second.machineCode = .ok secondCode ∧
        ∀ others others', firstCode ++ others = secondCode ++ others' →
          others = others' ∧ first.operation.Agrees second.operation) ∧
    (∀ items, Items.DataFree items →
      ∃ image decoded, Image.ofItems items = .ok image ∧
        Decoder.operations image.data.toList = some decoded ∧
        List.Forall₂ Operation.Agrees (Items.operations items) decoded) ∧
    ∀ (language : FormulaLanguage) (assembler : Assembler) (text : Text)
      (program : Program) (items : List Item) (fault : Option Error),
      assembler.assembleWith language (.ok text) = .ok program →
      (assembler.parser language text).Delivers items fault →
      (∀ content, .instruction content ∈ items →
        content.operation.isData = false) →
      ∃ decoded,
        Decoder.operations program.binary.toList = some decoded ∧
        List.Forall₂ Operation.Agrees
          ((Items.operations items).map
            (Operation.mapValues (SymInt.substitute program.symbols)))
          decoded := by
  refine ⟨?_, fun items dataFree => dataFree.ofItems, ?_⟩
  · intro first second firstParsed firstPlain secondParsed secondPlain
    rcases firstParsed.decodes firstPlain with
      ⟨firstCode, firstEncoded, firstSupported, firstDecodes⟩
    rcases secondParsed.decodes secondPlain with
      ⟨secondCode, secondEncoded, secondSupported, secondDecodes⟩
    refine ⟨_, _, Instruction.machineCode_eq firstEncoded firstSupported,
      Instruction.machineCode_eq secondEncoded secondSupported, ?_⟩
    intro others others' same
    rcases firstDecodes others with ⟨firstRead, read, firstAgrees⟩
    rcases secondDecodes others' with ⟨secondRead, read', secondAgrees⟩
    -- the decoder sees the same bytes, so it gives one instruction for both
    rw [same, read'] at read
    cases read
    exact ⟨rfl, firstAgrees.of_common secondAgrees⟩
  · intro language assembler text program items fault assembled delivered
      notData
    have dataFree :=
      Assembler.dataFree_of_assembleWith assembled delivered notData
    rcases dataFree.ofItems with ⟨image, decoded, written, read, agree⟩
    rcases Assembler.ofItems_of_assembleWith assembled delivered with
      ⟨image', written', -, -, binary⟩
    cases written.symm.trans written'
    rw [binary] at read
    rw [Items.operations_mapValues] at agree
    exact ⟨decoded, read, agree⟩

namespace Instruction

theorem isParsed_of_first {width : Width} {text : Text}
    {content : Instruction} (supported : width.isSupported = true)
    (first : (Parser.ofText none width ∅ text).next.1.toOption =
      some (some (.instruction content))) : content.IsParsed :=
  ⟨none, width, ∅, text, supported, Parser.Reaches.start.yields first⟩

/-- Add to a register what is in memory, at some distance from another. -/
def addIndirect (distance : Int64) : Instruction :=
  ⟨1, .reversible ⟨⟨0⟩, ⟨1⟩⟩ .byte
    (some (.indirectDisplacement ⟨1, .byte⟩ (.constant distance)))
    ⟨0, .byte⟩ true⟩

/-- Two distances with the same byte give the same code, and agree. -/
theorem addIndirect_decodes :
    addIndirect 255 ≠ addIndirect (-1) ∧
      (addIndirect 255).IsParsed ∧ (addIndirect (-1)).IsParsed ∧
      (addIndirect 255).machineCode = .ok [1, 136, 255] ∧
      (addIndirect (-1)).machineCode = .ok [1, 136, 255] ∧
      (addIndirect 255).operation.Agrees (addIndirect (-1)).operation := by
  have first : (addIndirect 255).IsParsed :=
    @isParsed_of_first .byte (Text.ascii "add ax, [bx:255]") _ rfl
      (by decide +kernel)
  have second : (addIndirect (-1)).IsParsed :=
    @isParsed_of_first .byte (Text.ascii "add ax, [bx:-1]") _ rfl
      (by decide +kernel)
  have firstCode : (addIndirect 255).machineCode =
      .ok [1, 136, 255] := rfl
  have secondCode : (addIndirect (-1)).machineCode =
      .ok [1, 136, 255] := rfl
  rcases machineCode_uniquelyDecodable.1 _ _ first rfl second rfl with
    ⟨_, _, firstWritten, secondWritten, unique⟩
  cases firstCode.symm.trans firstWritten
  cases secondCode.symm.trans secondWritten
  exact ⟨by decide, first, second, firstCode, secondCode,
    (unique [] [] rfl).2⟩

end Instruction

end FlatAsm
