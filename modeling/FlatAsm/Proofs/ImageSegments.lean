import FlatAsm.Image
import FlatAsm.Proofs.FieldMasks
import FlatAsm.Proofs.Outcomes
import FlatAsm.Proofs.SymbolicValue

/-!
# Images as sequences of segments

An image under construction is a sequence of segments: fixed bytes, and
fields that hold the base of a value until the addresses of labels are known.
The relocations kept with an image are those of its fields, in order.

The main statement of this module is that patching by relocations, one
coefficient at a time, turns the base in every field into the value of the
field and leaves everything else as it was.  It breaks off exactly if there
is a relocation for a field whose width is negative.
-/

namespace FlatAsm

/-- A part of an image that was written at once. -/
inductive Segment where
  | fixed (bytes : List UInt8)
  | field (value : SymInt) (width : Width) (line : Int)

namespace Segment

/-- How many bytes a segment takes. -/
def size : Segment → Nat
  | .fixed bytes => bytes.length
  | .field _ width _ => width.size

/-- The bytes of a segment, if a field holds the given word for its value. -/
def render (word : SymInt → UInt64) : Segment → List UInt8
  | .fixed bytes => bytes
  | .field value width _ => width.holding (word value)

@[simp]
theorem length_render (word : SymInt → UInt64) (segment : Segment) :
    (segment.render word).length = segment.size := by
  cases segment <;> simp [render, size]

/-- The width of a field has a mask. -/
def HasMask : Segment → Prop
  | .fixed _ => True
  | .field _ width _ => width.mask?.isSome = true

/-- No relocation is for a field of a negative width. -/
def IsWide : Segment → Prop
  | .fixed _ => True
  | .field value width _ => value.terms ≠ [] → 0 ≤ width.bytes

/-- The relocations of a segment at an offset. -/
def relocations (offset : Nat) : Segment → List Relocation
  | .fixed _ => []
  | .field value width line =>
      Image.relocationsFor offset value width line

/-- The relocations of segments that follow each other from an offset on. -/
def relocationsFrom : Nat → List Segment → List Relocation
  | _, [] => []
  | offset, segment :: rest =>
      segment.relocations offset ++
        relocationsFrom (offset + segment.size) rest

theorem length_flatMap_render
    (word : SymInt → UInt64) (segments : List Segment) :
    (segments.flatMap (render word)).length = (segments.map size).sum := by
  induction segments with
  | nil => rfl
  | cons segment rest inductionHypothesis => simp [inductionHypothesis]

theorem relocationsFrom_append
    (offset : Nat) (front back : List Segment) :
    relocationsFrom offset (front ++ back) =
      relocationsFrom offset front ++
        relocationsFrom (offset + (front.map size).sum) back := by
  induction front generalizing offset with
  | nil => simp [relocationsFrom]
  | cons segment rest inductionHypothesis =>
      simp [relocationsFrom, inductionHypothesis, Nat.add_assoc]

theorem isWide_of_relocations {offset : Nat} {segments : List Segment}
    (wide : ∀ relocation ∈ relocationsFrom offset segments,
      0 ≤ relocation.width.bytes) :
    ∀ segment ∈ segments, segment.IsWide := by
  induction segments generalizing offset with
  | nil => exact nofun
  | cons segment rest inductionHypothesis =>
      obtain ⟨here, later⟩ := List.forall_mem_append.1 wide
      refine List.forall_mem_cons.2 ⟨?_, inductionHypothesis later⟩
      cases segment with
      | fixed bytes => trivial
      | field value width line =>
          intro nonempty
          obtain ⟨term, inTerms⟩ := List.exists_mem_of_ne_nil _ nonempty
          exact here _ (List.mem_map.2 ⟨term, inTerms, rfl⟩)

/-- The base of a value, which a field holds until it is patched. -/
def baseWord (value : SymInt) : UInt64 :=
  value.base.toUInt64

/-- The value of a field under the given addresses. -/
def finalWord (addresses : Table Int) (value : SymInt) : UInt64 :=
  (value.weigh (SymInt.addressWord addresses)).toUInt64

end Segment

namespace Image

/-- Overwriting replaces bytes in the middle and keeps all others. -/
theorem toList_overwrite
    {data : Array UInt8} {front old back new : List UInt8}
    (content : data.toList = front ++ old ++ back)
    (sameLength : old.length = new.length) :
    (overwrite data front.length new).toList = front ++ new ++ back := by
  induction new generalizing data front old with
  | nil =>
      have none : old = [] := List.eq_nil_of_length_eq_zero sameLength
      rw [overwrite, content, none]
  | cons byte rest inductionHypothesis =>
      cases old with
      | nil => simp at sameLength
      | cons first others =>
          have replaced :
              (data.setIfInBounds front.length byte).toList =
                (front ++ [byte]) ++ others ++ back := by
            rw [Array.toList_setIfInBounds, content]
            simp
          have lengths : others.length = rest.length := by
            simpa using sameLength
          have further := inductionHypothesis replaced lengths
          rw [List.length_append, List.length_singleton] at further
          rw [overwrite, further]
          simp

theorem fieldBytes_eq
    {data : Array UInt8} {front old back : List UInt8}
    (content : data.toList = front ++ old ++ back) :
    fieldBytes data front.length old.length = old := by
  rw [fieldBytes, Array.toList_extract, content, List.extract_eq_take_drop]
  simp

theorem patch_of_bytes_neg {symbols : Table Int} {data : Array UInt8}
    {relocation : Relocation} (negative : relocation.width.bytes < 0) :
    patch symbols data relocation = .error .sliceBounds := by
  rw [patch, if_pos (.inl negative)]

/-- A relocation adds a multiple of an address to its field. -/
theorem exists_patch
    {symbols : Table Int} {data : Array UInt8} {front back : List UInt8}
    {relocation : Relocation} {word : UInt64}
    (place : relocation.offset = front.length)
    (masked : relocation.width.mask?.isSome = true)
    (wide : 0 ≤ relocation.width.bytes)
    (content : data.toList =
      front ++ relocation.width.holding word ++ back) :
    ∃ data', patch symbols data relocation = .ok data' ∧
      data'.toList = front ++
        relocation.width.holding
          (word + (relocation.coefficient *
            SymInt.addressWord symbols relocation.symbol).toUInt64) ++
        back := by
  have held := fieldBytes_eq content
  rw [Width.length_holding] at held
  have room : front.length + relocation.width.size ≤ data.size := by
    rw [← Array.length_toList, content]
    simp
  have inside : ¬(relocation.width.bytes < 0 ∨
      data.size < front.length + relocation.width.size) := by
    omega
  refine ⟨overwrite data front.length (relocation.width.holding
    (word + (relocation.coefficient *
      SymInt.addressWord symbols relocation.symbol).toUInt64)), ?_,
    toList_overwrite content (by simp)⟩
  rw [patch, place]
  simp only [held, if_neg inside, Width.fieldOf_of_mask? masked,
    Width.holding_read_add masked]
  rfl

/-- The relocations of one field add up. -/
theorem exists_foldlM_patch_terms
    {symbols : Table Int} {width : Width} {line : Int}
    {front back : List UInt8} {data : Array UInt8} {word : UInt64}
    (masked : width.mask?.isSome = true)
    (terms : List (Text × Int64)) (wide : terms ≠ [] → 0 ≤ width.bytes)
    (content : data.toList = front ++ width.holding word ++ back) :
    ∃ data', (terms.map fun term =>
        (⟨front.length, term.1, term.2, width, line⟩ :
          Relocation)).foldlM (patch symbols) data = .ok data' ∧
      data'.toList = front ++
        width.holding
          (word + (SymInt.weightedSum (SymInt.addressWord symbols)
            terms).toUInt64) ++
        back := by
  induction terms generalizing data word with
  | nil =>
      have unchanged : word + (0 : Int64).toUInt64 = word :=
        UInt64.add_zero word
      exact ⟨data, rfl, by simpa [unchanged] using content⟩
  | cons term rest inductionHypothesis =>
      have nonnegative := wide (List.cons_ne_nil term rest)
      obtain ⟨middle, patched, held⟩ := @exists_patch symbols data front
        back ⟨front.length, term.1, term.2, width, line⟩ word rfl masked
        nonnegative content
      obtain ⟨final, others, summed⟩ :=
        inductionHypothesis (fun _ => nonnegative) held
      refine ⟨final, ?_, ?_⟩
      · rw [List.map_cons, List.foldlM_cons, patched]
        exact others
      · rw [summed, SymInt.weightedSum_cons, Int64.toUInt64_add,
          UInt64.add_assoc]

/-- Patching visits the segments in order and fills in each field. -/
theorem exists_foldlM_patch_segments
    {symbols : Table Int} {front back : List UInt8}
    {data : Array UInt8} (word : SymInt → UInt64)
    (segments : List Segment)
    (masked : ∀ segment ∈ segments, segment.HasMask)
    (wide : ∀ segment ∈ segments, segment.IsWide)
    (content : data.toList =
      front ++ segments.flatMap (Segment.render word) ++ back) :
    ∃ data', (Segment.relocationsFrom front.length segments).foldlM
        (patch symbols) data = .ok data' ∧
      data'.toList = front ++
        segments.flatMap (Segment.render fun value =>
          word value + (SymInt.weightedSum (SymInt.addressWord symbols)
            value.terms).toUInt64) ++
        back := by
  induction segments generalizing data front with
  | nil => exact ⟨data, rfl, by simpa using content⟩
  | cons segment rest inductionHypothesis =>
      obtain ⟨hasMask, restMasked⟩ := List.forall_mem_cons.1 masked
      obtain ⟨isWide, restWide⟩ := List.forall_mem_cons.1 wide
      rw [List.flatMap_cons, ← List.append_assoc] at content
      -- the segments after this one start where it ends, patched or not
      have later : ∀ {middle : List UInt8} {data' : Array UInt8},
          middle.length = segment.size →
          data'.toList = front ++ middle ++
            rest.flatMap (Segment.render word) ++ back →
          ∃ final,
            (Segment.relocationsFrom (front.length + segment.size)
              rest).foldlM (patch symbols) data' = .ok final ∧
            final.toList = front ++ middle ++
              rest.flatMap (Segment.render fun value =>
                word value +
                  (SymInt.weightedSum (SymInt.addressWord symbols)
                    value.terms).toUInt64) ++
              back := by
        intro middle data' length content'
        have further := inductionHypothesis restMasked restWide content'
        rwa [List.length_append, length] at further
      rw [Segment.relocationsFrom, List.foldlM_append, List.flatMap_cons,
        ← List.append_assoc]
      cases segment with
      | fixed bytes => exact later rfl content
      | field value width line =>
          have content' : data.toList =
              front ++ width.holding (word value) ++
                (rest.flatMap (Segment.render word) ++ back) := by
            rw [← List.append_assoc]
            exact content
          obtain ⟨middle, patched, filled⟩ :=
            exists_foldlM_patch_terms hasMask value.terms isWide content'
          rw [← List.append_assoc] at filled
          obtain ⟨final, others, summed⟩ :=
            later (by simp [Segment.size]) filled
          refine ⟨final, ?_, summed⟩
          rw [Segment.relocations, relocationsFor, patched]
          exact others

/-- The image consists of these segments, and no field is patched yet. -/
structure MadeOf (image : Image) (segments : List Segment) : Prop where
  data : image.data.toList =
    segments.flatMap (Segment.render Segment.baseWord)
  relocations : image.relocations.toList =
    Segment.relocationsFrom 0 segments
  masked : ∀ segment ∈ segments, segment.HasMask

namespace MadeOf

theorem empty : MadeOf Image.empty [] :=
  ⟨rfl, rfl, nofun⟩

theorem offset_eq {image : Image} {segments : List Segment}
    (madeOf : MadeOf image segments) :
    image.offset = (segments.map Segment.size).sum := by
  rw [Image.offset, ← Array.length_toList, madeOf.data,
    Segment.length_flatMap_render]

theorem write {image : Image} {segments : List Segment}
    (madeOf : MadeOf image segments) (bytes : List UInt8) :
    MadeOf (image.write bytes) (segments ++ [.fixed bytes]) := by
  constructor
  case data => simp [Image.write, madeOf.data, Segment.render]
  case relocations =>
    simp [Image.write, madeOf.relocations, Segment.relocationsFrom_append,
      Segment.relocationsFrom, Segment.relocations]
  case masked =>
    refine List.forall_mem_append.2 ⟨madeOf.masked, ?_⟩
    exact List.forall_mem_singleton.2 trivial

theorem checkByte {image : Image} {segments : List Segment}
    (madeOf : MadeOf image segments) (value : SymInt) (line : Int) :
    MadeOf (image.checkByte value line) segments :=
  ⟨madeOf.data, madeOf.relocations, madeOf.masked⟩

end MadeOf

/-- A field is appended if its width has a mask. -/
theorem writeInteger_eq_ok_iff {image after : Image} {value : SymInt}
    {width : Width} {line : Int} :
    image.writeInteger value width line = .ok after ↔
      width.mask?.isSome = true ∧
        after = { image with
          data := image.data ++ width.holding value.base.toUInt64
          relocations := image.relocations ++
            relocationsFor image.offset value width line } := by
  rw [writeInteger]
  split
  · next failed =>
    refine iff_of_false nofun ?_
    rintro ⟨masked, -⟩
    cases failed.symm.trans (Width.fieldOf_of_mask? masked _)
  · next written =>
    obtain ⟨masked, rfl⟩ := Width.fieldOf_eq_ok_iff.1 written
    simp [masked, eq_comm]

theorem MadeOf.writeInteger {image after : Image}
    {segments : List Segment} (madeOf : MadeOf image segments)
    {value : SymInt} {width : Width} {line : Int}
    (written : image.writeInteger value width line = .ok after) :
    MadeOf after (segments ++ [.field value width line]) := by
  obtain ⟨masked, rfl⟩ := writeInteger_eq_ok_iff.1 written
  constructor
  case data => simp [madeOf.data, Segment.render, Segment.baseWord]
  case relocations =>
    simp [madeOf.relocations, madeOf.offset_eq,
      Segment.relocationsFrom_append, Segment.relocationsFrom,
      Segment.relocations]
  case masked =>
    refine List.forall_mem_append.2 ⟨madeOf.masked, ?_⟩
    exact List.forall_mem_singleton.2 masked

/-- A field of code is written behind its check, if it has one. -/
theorem emitField_eq (image : Image) (line : Int) (field : Field) :
    image.emitField line field =
      (if field.isByte && !field.value.isConstant then
        image.checkByte field.value line
      else image).writeInteger field.value field.width line := by
  rw [emitField]
  split <;> rfl

theorem MadeOf.emitField {image after : Image} {segments : List Segment}
    (madeOf : MadeOf image segments) {line : Int} {field : Field}
    (emitted : image.emitField line field = .ok after) :
    MadeOf after (segments ++ [.field field.value field.width line]) := by
  rw [emitField_eq] at emitted
  split at emitted
  · exact (madeOf.checkByte field.value line).writeInteger emitted
  · exact madeOf.writeInteger emitted

theorem exists_emitField_iff (image : Image) (line : Int)
    (field : Field) :
    (∃ after, image.emitField line field = .ok after) ↔
      field.width.mask?.isSome = true := by
  rw [emitField_eq]
  simp [writeInteger_eq_ok_iff]

end Image

namespace Code

/-- The segments that the code of an instruction on a line adds. -/
def segments (code : Code) (line : Int) : List Segment :=
  .fixed code.bytes ::
    code.fields.map fun field => .field field.value field.width line

/-- The widths of all fields have masks. -/
def HasMasks (code : Code) : Prop :=
  ∀ field ∈ code.fields, field.width.mask?.isSome = true

theorem hasMasks_of_supported {code : Code}
    (supported : ∀ field ∈ code.fields,
      field.width.isSupported = true) : code.HasMasks :=
  fun field member => Width.isSome_mask?_of_isSupported (supported field member)

/-- The values of the code that are to be checked once they are known. -/
def checkedValues (code : Code) : List SymInt :=
  (code.fields.filter fun field =>
    field.isByte && !field.value.isConstant).map Field.value

end Code

namespace Image

/-- Code is emitted if all its fields have masks. -/
theorem exists_emit_iff (image : Image) (code : Code) (line : Int) :
    (∃ after, image.emit code line = .ok after) ↔
      code.HasMasks :=
  exists_foldlM_iff fun before => exists_emitField_iff before line

/-- What is kept by writing bytes and fields is kept by emitting code. -/
theorem emit_induction {motive : Image → List Segment → Prop}
    {image after : Image} {segments : List Segment} {code : Code}
    {line : Int} (emitted : image.emit code line = .ok after)
    (write : motive (image.write code.bytes)
      (segments ++ [.fixed code.bytes]))
    (field : ∀ field ∈ code.fields, ∀ before after segments,
      motive before segments → before.emitField line field = .ok after →
        motive after
          (segments ++ [.field field.value field.width line])) :
    motive after (segments ++ code.segments line) := by
  have fields : motive after ((segments ++ [.fixed code.bytes]) ++
      code.fields.map fun field =>
        .field field.value field.width line) := by
    refine foldlM_induction (motive := fun front image =>
      motive image ((segments ++ [.fixed code.bytes]) ++
        front.map fun field => .field field.value field.width line))
      emitted ?_ ?_
    · simpa using write
    · intro front added before after member kept further
      rw [List.map_append, List.map_singleton, ← List.append_assoc]
      exact field added member before after _ kept further
  simpa [Code.segments] using fields

theorem MadeOf.emit {image after : Image} {segments : List Segment}
    (madeOf : MadeOf image segments) {code : Code} {line : Int}
    (emitted : image.emit code line = .ok after) :
    MadeOf after (segments ++ code.segments line) :=
  emit_induction emitted (madeOf.write code.bytes)
    fun _ _ _ _ _ made added => made.emitField added

/-- The values to be checked and their lines, in order. -/
def checkedValues (image : Image) : List (Int × SymInt) :=
  image.checks.toList.map fun check => (check.line, check.value)

/-- What is to be checked of a field. -/
def checksFor (line : Int) (field : Field) : List (Int × SymInt) :=
  if field.isByte && !field.value.isConstant then [(line, field.value)]
  else []

theorem checkedValues_emitField {image after : Image} {line : Int}
    {field : Field} (emitted : image.emitField line field = .ok after) :
    after.checkedValues = image.checkedValues ++ checksFor line field := by
  rw [emitField_eq] at emitted
  obtain ⟨-, rfl⟩ := writeInteger_eq_ok_iff.1 emitted
  rw [checksFor]
  split <;> simp [checkedValues, checkByte]

theorem checkedValues_eq_flatMap (code : Code) (line : Int) :
    (code.checkedValues.map fun value => (line, value)) =
      code.fields.flatMap (checksFor line) := by
  rw [Code.checkedValues]
  induction code.fields with
  | nil => rfl
  | cons field rest inductionHypothesis =>
      rw [List.flatMap_cons, ← inductionHypothesis, checksFor,
        List.filter_cons]
      split <;> simp

theorem checkedValues_emit {image after : Image} {code : Code}
    {line : Int} (emitted : image.emit code line = .ok after) :
    after.checkedValues =
      image.checkedValues ++
        code.checkedValues.map fun value => (line, value) := by
  rw [checkedValues_eq_flatMap]
  refine foldlM_induction (motive := fun front after =>
    after.checkedValues =
      image.checkedValues ++ front.flatMap (checksFor line)) emitted ?_ ?_
  · simp [checkedValues, write]
  · intro front field before after _ kept added
    rw [checkedValues_emitField added, kept, List.flatMap_append,
      List.flatMap_singleton, List.append_assoc]

theorem symbols_emitField {image after : Image} {line : Int}
    {field : Field} (emitted : image.emitField line field = .ok after) :
    after.symbols = image.symbols := by
  rw [emitField_eq] at emitted
  obtain ⟨-, rfl⟩ := writeInteger_eq_ok_iff.1 emitted
  dsimp only
  split <;> rfl

theorem symbols_emit {image after : Image} {code : Code} {line : Int}
    (emitted : image.emit code line = .ok after) :
    after.symbols = image.symbols := by
  refine foldlM_induction (motive := fun _ after =>
    after.symbols = image.symbols) emitted rfl ?_
  intro front field before after _ kept added
  rw [symbols_emitField added, kept]

theorem patchAll_eq_ok_iff {image after : Image} :
    image.patchAll = .ok after ↔
      ∃ data, image.relocations.toList.foldlM (patch image.symbols)
          image.data = .ok data ∧
        after = { image with data := data } := by
  rw [patchAll, ← Array.foldlM_toList]
  split
  · next failed => simp [failed]
  · next data patched => simp [patched, eq_comm]

/-- There is no patching by relocations for fields of negative widths. -/
theorem bytes_nonneg_of_patchAll {image after : Image}
    (patched : image.patchAll = .ok after) {relocation : Relocation}
    (member : relocation ∈ image.relocations) :
    0 ≤ relocation.width.bytes := by
  obtain ⟨data, done, -⟩ := patchAll_eq_ok_iff.1 patched
  obtain ⟨front, back, split⟩ :=
    List.append_of_mem (Array.mem_def.1 member)
  rw [split, List.foldlM_append] at done
  obtain ⟨middle, -, rest⟩ := bind_eq_ok_iff.1 done
  rw [List.foldlM_cons] at rest
  obtain ⟨_, first, -⟩ := bind_eq_ok_iff.1 rest
  by_contra negative
  rw [patch_of_bytes_neg (by omega)] at first
  cases first

/-- Patching adds to every field what its labels ask for. -/
theorem exists_patchAll {image : Image} {segments : List Segment}
    {word : SymInt → UInt64}
    (data : image.data.toList =
      segments.flatMap (Segment.render word))
    (relocations : image.relocations.toList =
      Segment.relocationsFrom 0 segments)
    (masked : ∀ segment ∈ segments, segment.HasMask)
    (wide : ∀ segment ∈ segments, segment.IsWide) :
    ∃ patched, image.patchAll = .ok { image with data := patched } ∧
      patched.toList =
        segments.flatMap (Segment.render fun value =>
          word value + (SymInt.weightedSum
            (SymInt.addressWord image.symbols) value.terms).toUInt64) := by
  have content : image.data.toList =
      [] ++ segments.flatMap (Segment.render word) ++ [] := by
    simpa using data
  obtain ⟨patched, done, filled⟩ := @exists_foldlM_patch_segments
    image.symbols [] [] _ word segments masked wide content
  refine ⟨patched, patchAll_eq_ok_iff.2 ⟨patched, ?_, rfl⟩, ?_⟩
  · rw [relocations]
    exact done
  · simpa using filled

namespace MadeOf

variable {image : Image} {segments : List Segment}

/-- Patching fills in the value of every field, and nothing else. -/
theorem exists_patchAll (madeOf : MadeOf image segments)
    (wide : ∀ segment ∈ segments, segment.IsWide) :
    ∃ patched, image.patchAll = .ok { image with data := patched } ∧
      patched.toList = segments.flatMap
        (Segment.render (Segment.finalWord image.symbols)) := by
  have words : (fun value : SymInt =>
      Segment.baseWord value +
        (SymInt.weightedSum (SymInt.addressWord image.symbols)
          value.terms).toUInt64) =
      Segment.finalWord image.symbols := by
    funext value
    rw [Segment.finalWord, SymInt.weigh_eq_base_add, Int64.toUInt64_add,
      Segment.baseWord]
  rw [← words]
  exact Image.exists_patchAll madeOf.data madeOf.relocations madeOf.masked
    wide

theorem patchAll_iff_isWide (madeOf : MadeOf image segments) :
    (∃ after, image.patchAll = .ok after) ↔
      ∀ segment ∈ segments, segment.IsWide := by
  constructor
  · rintro ⟨after, patched⟩
    refine @Segment.isWide_of_relocations 0 segments ?_
    intro relocation member
    rw [← madeOf.relocations] at member
    exact bytes_nonneg_of_patchAll patched (Array.mem_def.2 member)
  · intro wide
    obtain ⟨patched, done, -⟩ := madeOf.exists_patchAll wide
    exact ⟨_, done⟩

/-- Whenever patching does not break off, this is what it gives. -/
theorem toList_patchAll (madeOf : MadeOf image segments) {after : Image}
    (patched : image.patchAll = .ok after) :
    after.data.toList = segments.flatMap
      (Segment.render (Segment.finalWord image.symbols)) := by
  obtain ⟨data, done, filled⟩ := madeOf.exists_patchAll
    (madeOf.patchAll_iff_isWide.1 ⟨after, patched⟩)
  cases done.symm.trans patched
  exact filled

end MadeOf

end Image

/-- The labels that a segment refers to, in order, with its line. -/
def Segment.references : Segment → List (Int × Text)
  | .fixed _ => []
  | .field value _ line => value.terms.map fun term => (line, term.1)

/-- Relocations are kept in the order of segments, and then of labels. -/
theorem Segment.map_relocationsFrom (offset : Nat)
    (segments : List Segment) :
    (relocationsFrom offset segments).map
        (fun relocation => (relocation.line, relocation.symbol)) =
      segments.flatMap references := by
  induction segments generalizing offset with
  | nil => rfl
  | cons segment rest inductionHypothesis =>
      rw [relocationsFrom, List.map_append, inductionHypothesis,
        List.flatMap_cons]
      cases segment with
      | fixed bytes => rfl
      | field value width line =>
          simp [relocations, references, Image.relocationsFor]

/-- All labels have addresses if no reference is without one. -/
theorem Image.unresolved?_eq_none_iff {image : Image}
    {segments : List Segment}
    (relocations : image.relocations.toList =
      Segment.relocationsFrom 0 segments) :
    image.unresolved? = none ↔
      ∀ reference ∈ segments.flatMap Segment.references,
        image.symbols.contains reference.2 = true := by
  rw [← Segment.map_relocationsFrom 0, ← relocations, unresolved?,
    Array.find?_eq_none]
  simp

end FlatAsm
