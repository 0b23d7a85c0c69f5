import FlatAsm.Proofs.ItemLayout
import FlatAsm.Proofs.RelocatedFields

/-!
# Histories of images

An image may be written to, be given labels and have its relocations applied
in any order and any number of times.  What it keeps about its fields is
determined by what has been written: applying relocations changes bytes in
place, and giving a label an address changes nothing but that address.

So the relocations always stand in the order of their fields and, within a
field, of their labels.  All of them lie inside the image, and two of them
belong to the same field or to fields that do not overlap.  If only code of
instructions has been written, every check belongs to a field as well, and a
check can be resolved as soon as the relocations can.

The only step that breaks off is one that writes a field without a mask.
Applying relocations never does, because their fields are there.
-/

namespace FlatAsm

/-- What can be done with an image. -/
inductive ImageStep where
  | write (writing : Writing)
  | emit (code : Code) (line : Int)
  | define (label : Text) (address : Int)
  | relocate
  deriving DecidableEq, Repr

namespace ImageStep

/-- The widths of the fields that a step writes. -/
def widths : ImageStep → List Width
  | .write (.integer _ width _) => [width]
  | .write (.bytes _) | .write (.check _ _) => []
  | .emit code _ => code.fields.map Field.width
  | .define _ _ | .relocate => []

/-- The segments that a step adds to an image. -/
def segments : ImageStep → List Segment
  | .write writing => writing.segments
  | .emit code line => code.segments line
  | .define _ _ | .relocate => []

/-- Do all fields and checks of a step come from the code of instructions? -/
def IsEncoded : ImageStep → Prop
  | .write (.bytes _) => True
  | .write (.integer _ _ _) | .write (.check _ _) => False
  | .emit code _ => ∃ instruction : Instruction, instruction.encode = .ok code
  | .define _ _ | .relocate => True

theorem mem_widths {step : ImageStep} {value : SymInt} {width : Width}
    {line : Int} (member : .field value width line ∈ step.segments) :
    width ∈ step.widths := by
  cases step with
  | write writing =>
      cases writing with
      | bytes content => simp [segments, Writing.segments] at member
      | check value line => simp [segments, Writing.segments] at member
      | integer value width line =>
          simp only [segments, Writing.segments, List.mem_singleton,
            Segment.field.injEq] at member
          simp [widths, member]
  | emit code line =>
      simp only [segments, Code.segments, List.mem_cons, reduceCtorEq,
        false_or, List.mem_map, Segment.field.injEq] at member
      rcases member with ⟨field, inFields, -, rfl, -⟩
      exact List.mem_map_of_mem inFields
  | define label address => cases member
  | relocate => cases member

end ImageStep

/-! ## Relocations of segments -/

namespace Relocation

/-- Where the field of a relocation ends. -/
def stop (relocation : Relocation) : Int :=
  relocation.offset + relocation.width.bytes

/-- The relocation is for a smaller label of a field, or an earlier field. -/
def Before (left right : Relocation) : Prop :=
  (left.offset = right.offset ∧ left.width = right.width ∧
      left.symbol < right.symbol) ∨
    left.offset + left.width.size ≤ right.offset

/-- The relocations belong to the same field, or to disjoint ones. -/
def Apart (left right : Relocation) : Prop :=
  (left.offset = right.offset ∧ left.stop = right.stop) ∨
    left.stop ≤ right.offset ∨ right.stop ≤ left.offset

theorem Apart.symm {left right : Relocation} (apart : left.Apart right) :
    right.Apart left := by
  rcases apart with ⟨starts, stops⟩ | before | after
  · exact .inl ⟨starts.symm, stops.symm⟩
  · exact .inr (.inr before)
  · exact .inr (.inl after)

theorem Before.apart {left right : Relocation} (before : left.Before right)
    (wide : 0 ≤ left.width.bytes) : left.Apart right := by
  rcases before with ⟨starts, widths, -⟩ | earlier
  · refine .inl ⟨starts, ?_⟩
    rw [stop, stop, starts, widths]
  · refine .inr (.inl ?_)
    rw [stop]
    rw [Width.size] at earlier
    omega

/-- The field of a relocation can be patched in data of a size. -/
structure Fits (relocation : Relocation) (size : Nat) : Prop where
  wide : 0 ≤ relocation.width.bytes
  inside : relocation.offset + relocation.width.size ≤ size
  masked : relocation.width.mask?.isSome = true

end Relocation

namespace Segment

/-- A relocation is kept for every label of every field. -/
theorem mem_relocationsFrom_iff {offset : Nat} {segments : List Segment}
    {relocation : Relocation} :
    relocation ∈ relocationsFrom offset segments ↔
      ∃ front value back,
        segments = front ++
          .field value relocation.width relocation.line :: back ∧
        relocation.offset = offset + (front.map size).sum ∧
        (relocation.symbol, relocation.coefficient) ∈ value.terms := by
  constructor
  · intro member
    induction segments generalizing offset with
    | nil => cases member
    | cons segment rest inductionHypothesis =>
        rw [relocationsFrom, List.mem_append] at member
        rcases member with here | later
        · cases segment with
          | fixed bytes => cases here
          | field value width line =>
              rcases List.mem_map.1 here with ⟨term, inTerms, rfl⟩
              exact ⟨[], value, rest, rfl, rfl, inTerms⟩
        · rcases inductionHypothesis later with
            ⟨front, value, back, rfl, place, inTerms⟩
          refine ⟨segment :: front, value, back, rfl, ?_, inTerms⟩
          rw [place, List.map_cons, List.sum_cons, Nat.add_assoc]
  · rintro ⟨front, value, back, rfl, place, inTerms⟩
    rw [relocationsFrom_append, relocationsFrom, ← place]
    refine List.mem_append_right _ (List.mem_append_left _ ?_)
    exact List.mem_map.2 ⟨_, inTerms, rfl⟩

/-- Relocations stand in the order of their fields and labels. -/
theorem pairwise_relocationsFrom (offset : Nat) (segments : List Segment) :
    (relocationsFrom offset segments).Pairwise Relocation.Before := by
  induction segments generalizing offset with
  | nil => exact .nil
  | cons segment rest inductionHypothesis =>
      rw [relocationsFrom, List.pairwise_append]
      refine ⟨?_, inductionHypothesis _, ?_⟩
      · cases segment with
        | fixed bytes => exact .nil
        | field value width line =>
            refine List.pairwise_map.2 ?_
            exact (value.coefficients.sorted.filter _).imp
              fun smaller => .inl ⟨rfl, rfl, smaller⟩
      · intro left inSegment right inRest
        rcases mem_relocationsFrom_iff.1 inRest with
          ⟨front, _, _, _, place, _⟩
        cases segment with
        | fixed bytes => cases inSegment
        | field value width line =>
            rcases List.mem_map.1 inSegment with ⟨_, _, rfl⟩
            rw [size] at place
            exact .inr (by dsimp only; omega)

end Segment

/-! ## What every step keeps -/

namespace Image

/-- Do something with an image. -/
def perform (image : Image) : ImageStep → Except Breakdown Image
  | .write writing => image.extend writing
  | .emit code line => image.emit code line
  | .define label address => .ok (image.define label address)
  | .relocate => image.relocate

/-- A new image after some steps. -/
def ofSteps (steps : List ImageStep) : Except Breakdown Image :=
  steps.foldlM perform .empty

@[simp]
theorem size_overwrite (data : Array UInt8) (offset : Nat)
    (bytes : List UInt8) :
    (overwrite data offset bytes).size = data.size := by
  induction bytes generalizing data offset with
  | nil => rfl
  | cons byte rest inductionHypothesis =>
      rw [overwrite, inductionHypothesis, Array.size_setIfInBounds]

/-- What patching gives, whenever it does not break off. -/
theorem patch_eq_ok_iff {symbols : Table Int} {data patched : Array UInt8}
    {relocation : Relocation} :
    patch symbols data relocation = .ok patched ↔
      relocation.Fits data.size ∧
        patched = overwrite data relocation.offset
          (relocation.width.holding
            (LittleEndian.read (fieldBytes data relocation.offset
                relocation.width.size) +
              (relocation.coefficient *
                SymInt.addressWord symbols
                  relocation.symbol).toUInt64)) := by
  rw [patch]
  split
  · next outside =>
    refine iff_of_false (by simp) ?_
    rintro ⟨fits, -⟩
    have wide := fits.wide
    have inside := fits.inside
    omega
  · next within =>
    dsimp only
    split
    · next failed =>
      refine iff_of_false (by simp) ?_
      rintro ⟨fits, -⟩
      cases failed.symm.trans (Width.fieldOf_of_mask? fits.masked _)
    · next written =>
      obtain ⟨masked, rfl⟩ := Width.fieldOf_eq_ok_iff.1 written
      have fits : relocation.Fits data.size :=
        ⟨by omega, by omega, masked⟩
      simp only [Except.ok.injEq, fits, true_and, eq_comm]
      rfl

theorem size_of_patch {symbols : Table Int} {data patched : Array UInt8}
    {relocation : Relocation}
    (done : patch symbols data relocation = .ok patched) :
    patched.size = data.size := by
  obtain ⟨-, rfl⟩ := patch_eq_ok_iff.1 done
  exact size_overwrite _ _ _

theorem size_of_foldlM_patch {symbols : Table Int}
    {data patched : Array UInt8} {relocations : List Relocation}
    (done : relocations.foldlM (patch symbols) data = .ok patched) :
    patched.size = data.size := by
  refine foldlM_induction (motive := fun _ patched =>
    patched.size = data.size) done rfl ?_
  intro front relocation before after _ kept further
  rw [size_of_patch further, kept]

/-- Fields that are there can all be patched. -/
theorem exists_foldlM_patch {symbols : Table Int} {data : Array UInt8}
    {relocations : List Relocation}
    (fits : ∀ relocation ∈ relocations, relocation.Fits data.size) :
    ∃ patched, relocations.foldlM (patch symbols) data = .ok patched := by
  induction relocations generalizing data with
  | nil => exact ⟨data, rfl⟩
  | cons relocation rest inductionHypothesis =>
      obtain ⟨here, later⟩ := List.forall_mem_cons.1 fits
      have first :=
        (@patch_eq_ok_iff symbols data _ relocation).2 ⟨here, rfl⟩
      obtain ⟨patched, others⟩ := inductionHypothesis
        (fun other member => (size_of_patch first).symm ▸ later other member)
      refine ⟨patched, ?_⟩
      rw [List.foldlM_cons, first]
      exact others

/-- Applying relocations changes nothing but the bytes of an image. -/
structure SameFrame (image other : Image) : Prop where
  size : other.data.size = image.data.size
  symbols : other.symbols = image.symbols
  relocations : other.relocations = image.relocations
  checks : other.checks = image.checks

theorem SameFrame.refl (image : Image) : image.SameFrame image :=
  ⟨rfl, rfl, rfl, rfl⟩

theorem sameFrame_of_patchAll {image after : Image}
    (patched : image.patchAll = .ok after) : image.SameFrame after := by
  obtain ⟨data, done, rfl⟩ := patchAll_eq_ok_iff.1 patched
  exact ⟨size_of_foldlM_patch done, rfl, rfl, rfl⟩

theorem exists_applyRelocations_iff {image : Image} :
    (∃ outcome, image.applyRelocations = .ok outcome) ↔
      ∃ after, image.relocate = .ok after := by
  rw [relocate]
  cases image.applyRelocations <;> simp [Except.map]

/-- Relocations are applied by patching, or not at all. -/
theorem relocate_eq_ok_iff {image after : Image} :
    image.relocate = .ok after ↔
      (image.unresolved? ≠ none ∧ after = image) ∨
        (image.unresolved? = none ∧ image.patchAll = .ok after) := by
  cases missing : image.unresolved? with
  | some relocation =>
      simp [relocate, applyRelocations, missing, Except.map, eq_comm]
  | none => simp [relocate_eq_patchAll missing]

theorem sameFrame_of_relocate {image after : Image}
    (relocated : image.relocate = .ok after) : image.SameFrame after := by
  rcases relocate_eq_ok_iff.1 relocated with ⟨-, rfl⟩ | ⟨-, patched⟩
  · exact .refl after
  · exact sameFrame_of_patchAll patched

/-- The image has room for the segments, and keeps their relocations. -/
structure Holds (image : Image) (segments : List Segment) : Prop where
  size : image.data.size = (segments.map Segment.size).sum
  relocations :
    image.relocations.toList = Segment.relocationsFrom 0 segments
  masked : ∀ segment ∈ segments, segment.HasMask

namespace Holds

variable {image after : Image} {segments : List Segment}

theorem empty : Image.empty.Holds [] :=
  ⟨rfl, rfl, nofun⟩

theorem write (holds : image.Holds segments) (bytes : List UInt8) :
    (image.write bytes).Holds (segments ++ [.fixed bytes]) := by
  constructor
  case size =>
    rw [Image.write, ← Array.length_toList]
    simp [holds.size, Segment.size]
  case relocations =>
    simp [Image.write, holds.relocations, Segment.relocationsFrom_append,
      Segment.relocationsFrom, Segment.relocations]
  case masked =>
    refine List.forall_mem_append.2 ⟨holds.masked, ?_⟩
    exact List.forall_mem_singleton.2 trivial

theorem writeInteger (holds : image.Holds segments) {value : SymInt}
    {width : Width} {line : Int}
    (written : image.writeInteger value width line = .ok after) :
    after.Holds (segments ++ [.field value width line]) := by
  obtain ⟨masked, rfl⟩ := writeInteger_eq_ok_iff.1 written
  constructor
  case size =>
    rw [← Array.length_toList]
    simp [holds.size, Segment.size]
  case relocations =>
    simp [holds.relocations, offset, holds.size,
      Segment.relocationsFrom_append, Segment.relocationsFrom,
      Segment.relocations]
  case masked =>
    refine List.forall_mem_append.2 ⟨holds.masked, ?_⟩
    exact List.forall_mem_singleton.2 masked

theorem checkByte (holds : image.Holds segments) (value : SymInt)
    (line : Int) : (image.checkByte value line).Holds segments :=
  ⟨holds.size, holds.relocations, holds.masked⟩

theorem emitField (holds : image.Holds segments) {line : Int}
    {field : Field} (emitted : image.emitField line field = .ok after) :
    after.Holds (segments ++ [.field field.value field.width line]) := by
  rw [emitField_eq] at emitted
  split at emitted
  · exact (holds.checkByte _ _).writeInteger emitted
  · exact holds.writeInteger emitted

theorem ofSameFrame {other : Image} (holds : image.Holds segments)
    (same : image.SameFrame other) : other.Holds segments := by
  constructor
  case size => rw [same.size, holds.size]
  case relocations => rw [same.relocations, holds.relocations]
  case masked => exact holds.masked

theorem perform (holds : image.Holds segments) {step : ImageStep}
    (performed : image.perform step = .ok after) :
    after.Holds (segments ++ step.segments) := by
  cases step with
  | write writing =>
      cases writing with
      | bytes content =>
          cases performed
          exact holds.write content
      | integer value width line => exact holds.writeInteger performed
      | check value line =>
          cases performed
          rw [ImageStep.segments, Writing.segments, List.append_nil]
          exact holds.checkByte value line
  | emit code line =>
      exact emit_induction performed (holds.write code.bytes)
        fun _ _ _ _ _ before emitted => before.emitField emitted
  | define label address =>
      cases performed
      rw [ImageStep.segments, List.append_nil]
      exact ⟨holds.size, holds.relocations, holds.masked⟩
  | relocate =>
      rw [ImageStep.segments, List.append_nil]
      exact holds.ofSameFrame (sameFrame_of_relocate performed)

/-- Every relocation is for a field inside the image that has a mask. -/
theorem fits (holds : image.Holds segments) {relocation : Relocation}
    (member : relocation ∈ image.relocations)
    (wide : 0 ≤ relocation.width.bytes) :
    relocation.Fits image.data.size := by
  rw [Array.mem_def, holds.relocations,
    Segment.mem_relocationsFrom_iff] at member
  rcases member with ⟨front, value, back, rfl, place, -⟩
  refine ⟨wide, ?_, ?_⟩
  · rw [holds.size, place]
    simp only [List.map_append, List.map_cons, List.sum_append,
      List.sum_cons, Segment.size]
    omega
  · exact holds.masked (.field value relocation.width relocation.line)
      (List.mem_append_right front List.mem_cons_self)

/-- The fields of all relocations can be filled in. -/
theorem exists_patchAll (holds : image.Holds segments)
    (wide : ∀ relocation ∈ image.relocations,
      0 ≤ relocation.width.bytes) :
    ∃ after, image.patchAll = .ok after := by
  obtain ⟨data, done⟩ := @exists_foldlM_patch image.symbols image.data
    image.relocations.toList fun relocation member =>
      holds.fits (Array.mem_def.2 member)
        (wide relocation (Array.mem_def.2 member))
  exact ⟨_, patchAll_eq_ok_iff.2 ⟨data, done, rfl⟩⟩

/-- Applying relocations does not break off. -/
theorem exists_relocate (holds : image.Holds segments)
    (wide : ∀ relocation ∈ image.relocations,
      0 ≤ relocation.width.bytes) :
    ∃ after, image.relocate = .ok after := by
  obtain ⟨after, patched⟩ := holds.exists_patchAll wide
  cases missing : image.unresolved? with
  | some relocation =>
      exact ⟨image, relocate_eq_ok_iff.2 (.inl ⟨by simp [missing], rfl⟩)⟩
  | none =>
      exact ⟨after, relocate_eq_ok_iff.2 (.inr ⟨missing, patched⟩)⟩

/-- The width of a relocation is that of a field. -/
theorem exists_field (holds : image.Holds segments)
    {relocation : Relocation} (member : relocation ∈ image.relocations) :
    ∃ value line, .field value relocation.width line ∈ segments := by
  rw [Array.mem_def, holds.relocations,
    Segment.mem_relocationsFrom_iff] at member
  rcases member with ⟨front, value, back, rfl, -⟩
  exact ⟨value, _, List.mem_append_right front List.mem_cons_self⟩

end Holds

theorem holds_of_ofSteps {steps : List ImageStep} {image : Image}
    (made : ofSteps steps = .ok image) :
    image.Holds (steps.flatMap ImageStep.segments) := by
  refine foldlM_induction (motive := fun front image =>
    image.Holds (front.flatMap ImageStep.segments)) made .empty ?_
  intro front step before after _ holds performed
  rw [List.flatMap_append, List.flatMap_singleton]
  exact holds.perform performed

end Image

/-! ## Checks of encoded fields -/

/-- There is a field of one byte with the value and at the offset of a check. -/
def ByteCheck.HasField (segments : List Segment) (check : ByteCheck) : Prop :=
  ∃ front back,
    segments = front ++ .field check.value .byte check.line :: back ∧
      check.offset = (front.map Segment.size).sum

theorem ByteCheck.HasField.append {segments : List Segment}
    {check : ByteCheck} (field : check.HasField segments)
    (further : List Segment) : check.HasField (segments ++ further) := by
  rcases field with ⟨front, back, rfl, place⟩
  refine ⟨front, back ++ further, ?_, place⟩
  rw [List.append_assoc, List.cons_append]

/-- The field of an operand need not be a byte. -/
theorem Operation.isByte_of_encodeAddressed {opcode : Opcode} {width : Width}
    {operand : Option Operand} {right : Register} {code : Code}
    (encoded : encodeAddressed opcode width operand right = .ok code)
    {field : Field} (member : field ∈ code.fields) :
    field.isByte = false := by
  cases operand with
  | none => cases encoded
  | some operand =>
      cases encoded
      rw [Operand.fields] at member
      split at member
      · cases member
      · rw [List.mem_singleton.1 member]

/-- A field that has to be a byte has the width of one. -/
theorem Operation.width_of_encode {operation : Operation} {code : Code}
    (encoded : operation.encode = .ok code) {field : Field}
    (member : field ∈ code.fields) (isByte : field.isByte = true) :
    field.width = .byte := by
  cases operation with
  | data items =>
      rw [encode] at encoded
      split at encoded
      · cases encoded
      · cases encoded
        rcases List.mem_map.1 member with ⟨item, -, rfl⟩
        rfl
  | jump opcode width target =>
      cases encoded
      rw [List.mem_singleton.1 member] at isByte
      cases isByte
  | reversible pair width left right reversed =>
      rw [isByte_of_encodeAddressed encoded member] at isByte
      cases isByte
  | unary opcode width operand =>
      rw [isByte_of_encodeAddressed encoded member] at isByte
      cases isByte
  | nullary opcode width =>
      cases encoded
      cases member

namespace Image

/-- Moreover, every check of the image has its field. -/
structure Checked (image : Image) (segments : List Segment) : Prop extends
    image.Holds segments where
  checks : ∀ check ∈ image.checks, check.HasField segments

namespace Checked

variable {image after : Image} {segments : List Segment}

theorem empty : Image.empty.Checked [] where
  toHolds := .empty
  checks check member := absurd member (Array.not_mem_empty check)

theorem write (checked : image.Checked segments) (bytes : List UInt8) :
    (image.write bytes).Checked (segments ++ [.fixed bytes]) where
  toHolds := checked.toHolds.write bytes
  checks check member := (checked.checks check member).append _

theorem emitField (checked : image.Checked segments) {line : Int}
    {field : Field} (wide : field.isByte = true → field.width = .byte)
    (emitted : image.emitField line field = .ok after) :
    after.Checked
      (segments ++ [.field field.value field.width line]) where
  toHolds := checked.toHolds.emitField emitted
  checks check member := by
    rw [emitField_eq] at emitted
    obtain ⟨-, rfl⟩ := writeInteger_eq_ok_iff.1 emitted
    dsimp only at member
    split at member
    · next kept =>
      rcases Array.mem_push.1 member with earlier | rfl
      · exact (checked.checks check earlier).append _
      · rw [wide (Bool.and_eq_true_iff.1 kept).1]
        exact ⟨segments, [], rfl, checked.size⟩
    · exact (checked.checks check member).append _

theorem ofSameFrame {other : Image} (checked : image.Checked segments)
    (same : image.SameFrame other) : other.Checked segments where
  toHolds := checked.toHolds.ofSameFrame same
  checks := by
    rw [same.checks]
    exact checked.checks

theorem perform (checked : image.Checked segments) {step : ImageStep}
    (encoded : step.IsEncoded)
    (performed : image.perform step = .ok after) :
    after.Checked (segments ++ step.segments) := by
  cases step with
  | write writing =>
      cases writing with
      | bytes content =>
          cases performed
          exact checked.write content
      | integer value width line => exact encoded.elim
      | check value line => exact encoded.elim
  | emit code line =>
      rcases encoded with ⟨instruction, encoded⟩
      refine emit_induction performed (checked.write code.bytes) ?_
      intro field member before after segments kept emitted
      exact kept.emitField (Operation.width_of_encode
        (Instruction.encode_eq_ok_iff.1 encoded) member) emitted
  | define label address =>
      cases performed
      rw [ImageStep.segments, List.append_nil]
      exact ⟨⟨checked.size, checked.relocations, checked.masked⟩,
        checked.checks⟩
  | relocate =>
      rw [ImageStep.segments, List.append_nil]
      exact checked.ofSameFrame (sameFrame_of_relocate performed)

/-- A check can be resolved if all relocations can. -/
theorem resolve_snd (checked : image.Checked segments) {check : ByteCheck}
    (member : check ∈ image.checks)
    (known : ∀ relocation ∈ image.relocations,
      image.symbols.contains relocation.symbol = true) :
    (check.value.resolve image.symbols).2 = true := by
  rw [SymInt.resolve_snd_iff, SymInt.known_iff_terms]
  rintro ⟨label, factor⟩ inTerms
  rcases checked.checks check member with ⟨front, back, split, place⟩
  have kept : (⟨check.offset, label, factor, .byte, check.line⟩ :
      Relocation) ∈ image.relocations := by
    rw [Array.mem_def, checked.relocations, Segment.mem_relocationsFrom_iff]
    refine ⟨front, check.value, back, split, ?_, inTerms⟩
    rw [Nat.zero_add]
    exact place
  exact known _ kept

end Checked

theorem checked_of_ofSteps {steps : List ImageStep} {image : Image}
    (encoded : ∀ step ∈ steps, step.IsEncoded)
    (made : ofSteps steps = .ok image) :
    image.Checked (steps.flatMap ImageStep.segments) := by
  refine foldlM_induction (motive := fun front image =>
    image.Checked (front.flatMap ImageStep.segments)) made .empty ?_
  intro front step before after member checked performed
  rw [List.flatMap_append, List.flatMap_singleton]
  exact checked.perform (encoded step member) performed

/-! ## Well-formed images -/

/-- How the relocations of an image lie in it and in their order. -/
structure WellFormed (image : Image) : Prop where
  nonzero : ∀ relocation ∈ image.relocations, relocation.coefficient ≠ 0
  inside : ∀ relocation ∈ image.relocations,
    relocation.offset < relocation.stop ∧
      relocation.stop ≤ image.data.size
  apart : ∀ left ∈ image.relocations, ∀ right ∈ image.relocations,
    left.Apart right
  ordered : image.relocations.toList.Pairwise fun left right =>
    left.offset < right.offset ∨
      (left.offset = right.offset ∧ left.symbol < right.symbol)

theorem Holds.wellFormed {image : Image} {segments : List Segment}
    (holds : image.Holds segments)
    (positive : ∀ relocation ∈ image.relocations,
      1 ≤ relocation.width.bytes) : image.WellFormed := by
  have before := Segment.pairwise_relocationsFrom 0 segments
  rw [← holds.relocations] at before
  constructor
  case nonzero =>
    intro relocation member
    rw [Array.mem_def, holds.relocations,
      Segment.mem_relocationsFrom_iff] at member
    rcases member with ⟨-, value, -, -, -, inTerms⟩
    exact (SymInt.mem_terms_iff.1 inTerms).1
  case inside =>
    intro relocation member
    have width := positive relocation member
    have bounded := (holds.fits member (by omega)).inside
    rw [Width.size] at bounded
    rw [Relocation.stop]
    omega
  case apart =>
    have apart : image.relocations.toList.Pairwise Relocation.Apart := by
      refine before.imp_of_mem ?_
      intro left right inLeft _ earlier
      have width := positive left (Array.mem_def.2 inLeft)
      exact earlier.apart (by omega)
    intro left inLeft right inRight
    exact List.Pairwise.forall_of_forall_of_flip
      (fun _ _ => .inl ⟨rfl, rfl⟩) apart (apart.imp Relocation.Apart.symm)
      (Array.mem_def.1 inLeft) (Array.mem_def.1 inRight)
  case ordered =>
    refine before.imp_of_mem ?_
    intro left right inLeft _ earlier
    have width := positive left (Array.mem_def.2 inLeft)
    rcases earlier with ⟨same, -, smaller⟩ | earlier
    · exact .inr ⟨same, smaller⟩
    · rw [Width.size] at earlier
      omega

/-- A bound on the widths of all steps is one on those of relocations. -/
theorem bytes_of_mem_relocations {steps : List ImageStep} {image : Image}
    {least : Int}
    (wide : ∀ step ∈ steps, ∀ width ∈ step.widths, least ≤ width.bytes)
    (made : ofSteps steps = .ok image) {relocation : Relocation}
    (member : relocation ∈ image.relocations) :
    least ≤ relocation.width.bytes := by
  obtain ⟨value, line, written⟩ :=
    (holds_of_ofSteps made).exists_field member
  rcases List.mem_flatMap.1 written with ⟨step, inSteps, inSegments⟩
  exact wide step inSteps _ (ImageStep.mem_widths inSegments)

/-- A step can be done on any image with room for its relocations. -/
theorem exists_perform_iff {image : Image} {segments : List Segment}
    (holds : image.Holds segments)
    (wide : ∀ relocation ∈ image.relocations, 0 ≤ relocation.width.bytes)
    (step : ImageStep) :
    (∃ after, image.perform step = .ok after) ↔
      ∀ width ∈ step.widths, width.mask?.isSome = true := by
  cases step with
  | write writing =>
      rw [perform, exists_extend_iff]
      cases writing <;> simp [Writing.HasMask, ImageStep.widths]
  | emit code line =>
      rw [perform, exists_emit_iff]
      simp [ImageStep.widths, Code.HasMasks]
  | define label address => simp [perform, ImageStep.widths]
  | relocate =>
      exact iff_of_true (holds.exists_relocate wide)
        (by simp [ImageStep.widths])

/-- There is an image after some steps if all their fields have masks. -/
theorem exists_ofSteps_iff {steps : List ImageStep}
    (wide : ∀ step ∈ steps, ∀ width ∈ step.widths, 0 ≤ width.bytes) :
    (∃ image, ofSteps steps = .ok image) ↔
      ∀ step ∈ steps, ∀ width ∈ step.widths,
        width.mask?.isSome = true := by
  induction steps using List.reverseRecOn with
  | nil => exact iff_of_true ⟨.empty, rfl⟩ nofun
  | append_singleton steps step inductionHypothesis =>
      obtain ⟨earlier, -⟩ := List.forall_mem_append.1 wide
      rw [List.forall_mem_append, List.forall_mem_singleton,
        ← inductionHypothesis earlier]
      simp only [ofSteps, foldlM_concat, bind_eq_ok_iff]
      have last (before : Image) (made : ofSteps steps = .ok before) :=
        exists_perform_iff (holds_of_ofSteps made)
          (fun _ => bytes_of_mem_relocations earlier made) step
      constructor
      · rintro ⟨image, before, made, performed⟩
        exact ⟨⟨before, made⟩, (last before made).1 ⟨image, performed⟩⟩
      · rintro ⟨⟨before, made⟩, masked⟩
        obtain ⟨image, performed⟩ := (last before made).2 masked
        exact ⟨image, before, made, performed⟩

/--
However an image has been made, its relocations are in order, inside it and
apart from each other, and applying them does not break off.  If all fields
and checks come from the code of instructions, every check has its field and
resolves once all relocations have their labels.
-/
theorem ofSteps_wellFormed {steps : List ImageStep}
    (wide : ∀ step ∈ steps, ∀ width ∈ step.widths, 1 ≤ width.bytes) :
    ((∃ image, ofSteps steps = .ok image) ↔
      ∀ step ∈ steps, ∀ width ∈ step.widths,
        width.mask?.isSome = true) ∧
    ∀ image, ofSteps steps = .ok image →
      image.WellFormed ∧
      (∃ outcome, image.applyRelocations = .ok outcome) ∧
      ((∀ step ∈ steps, step.IsEncoded) →
        ∀ check ∈ image.checks,
          check.HasField (steps.flatMap ImageStep.segments) ∧
            ((∀ relocation ∈ image.relocations,
                image.symbols.contains relocation.symbol = true) →
              (check.value.resolve image.symbols).2 = true)) := by
  constructor
  · apply exists_ofSteps_iff
    intro step member width written
    have positive := wide step member width written
    omega
  · intro image made
    have positive (relocation : Relocation)
        (member : relocation ∈ image.relocations) :
        1 ≤ relocation.width.bytes :=
      bytes_of_mem_relocations wide made member
    refine ⟨(holds_of_ofSteps made).wellFormed positive, ?_, ?_⟩
    · apply exists_applyRelocations_iff.2
      apply (holds_of_ofSteps made).exists_relocate
      intro relocation member
      have width := positive relocation member
      omega
    · intro encoded check member
      have checked := checked_of_ofSteps encoded made
      exact ⟨checked.checks check member, checked.resolve_snd member⟩

/-- The sum of the addresses of two labels. -/
def labelSum : SymInt :=
  (SymInt.symbol (Text.ascii "x")).add (SymInt.symbol (Text.ascii "y"))

/-- Code after a relocation that fails, and again after one that works. -/
def resumedHistory : List ImageStep :=
  [.emit ⟨[], [⟨labelSum, .byte, true⟩]⟩ 1, .relocate,
    .define (Text.ascii "y") 3, .write (.bytes [0xaa]),
    .emit ⟨[8], [⟨labelSum, .byte, false⟩]⟩ 2,
    .define (Text.ascii "x") 4, .relocate,
    .emit ⟨[], [⟨labelSum, .byte, true⟩]⟩ 3]

/-- Both checks have their fields, although the first was filled in. -/
theorem resumedHistory_wellFormed :
    ∃ image, ofSteps resumedHistory = .ok image ∧
      image.data = #[7, 0xaa, 8, 7, 0] ∧
      image.checks.map ByteCheck.offset = #[0, 4] ∧
      image.WellFormed ∧
      ∀ check ∈ image.checks,
        check.HasField (resumedHistory.flatMap ImageStep.segments) ∧
          (check.value.resolve image.symbols).2 = true := by
  have encoded : ∀ step ∈ resumedHistory, step.IsEncoded := by
    have data : ∀ line, (⟨line, .data [labelSum]⟩ : Instruction).encode =
        .ok ⟨[], [⟨labelSum, .byte, true⟩]⟩ := fun _ => rfl
    have jump : (⟨2, .jump ⟨8⟩ .byte labelSum⟩ : Instruction).encode =
        .ok ⟨[8], [⟨labelSum, .byte, false⟩]⟩ := rfl
    simp only [resumedHistory, List.forall_mem_cons, List.not_mem_nil,
      false_implies, implies_true, and_true, ImageStep.IsEncoded, true_and]
    exact ⟨⟨_, data 1⟩, ⟨_, jump⟩, ⟨_, data 3⟩⟩
  rcases @ofSteps_wellFormed resumedHistory (by decide) with
    ⟨possible, wellFormed⟩
  obtain ⟨image, made⟩ := possible.2 (by decide)
  obtain ⟨ordered, -, checks⟩ := wellFormed image made
  have content : (ofSteps resumedHistory).map (fun image =>
        (image.data, image.checks.map ByteCheck.offset)) =
      .ok (#[7, 0xaa, 8, 7, 0], #[0, 4]) := by
    decide +kernel
  have known : (ofSteps resumedHistory).map (fun image =>
        image.relocations.all fun relocation =>
          image.symbols.contains relocation.symbol) = .ok true := by
    decide +kernel
  rw [made] at content known
  obtain ⟨data, offsets⟩ := Prod.mk.inj (Except.ok.inj content)
  have resolved := Array.all_eq_true'.1 (Except.ok.inj known)
  refine ⟨image, made, data, offsets, ordered, ?_⟩
  intro check member
  rcases checks encoded check member with ⟨field, resolves⟩
  exact ⟨field, resolves resolved⟩

end Image

end FlatAsm
