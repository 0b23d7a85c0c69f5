import FlatAsm.Proofs.AssemblyOutcome
import FlatAsm.Proofs.KnownLabels

/-!
# References are the numbers they stand for

A program can be assembled again from its text and its symbol table: every
label is read as its address, the declarations are skipped, and the codes are
written one after the other.  The main theorem of this module says that this
never fails, leaves nothing to be relocated or checked, and gives the image
of the program.
-/

namespace FlatAsm

namespace Image

/-- Append the code of an instruction, and skip a label. -/
def emitItem (image : Image) : Item → Except Error Image
  | .label _ _ => .ok image
  | .instruction content =>
      match content.encode with
      | .error fault => .error fault
      | .ok code => (image.emit code content.line).mapError .breakdown

/-- The image of items, apart from their labels. -/
def ofItems (items : List Item) : Except Error Image :=
  items.foldlM emitItem empty

theorem foldlM_emitItem {image : Image} {segments : List Segment}
    {items : List Item} (madeOf : image.MadeOf segments)
    (encodes : ∀ content, Item.instruction content ∈ items →
      ∃ code, content.encode = .ok code ∧ code.HasMasks) :
    ∃ image', items.foldlM emitItem image = .ok image' ∧
      image'.MadeOf (segments ++ Items.segments items) ∧
      image'.checkedValues =
        image.checkedValues ++ Items.checkedValues items := by
  induction items generalizing image segments with
  | nil =>
      refine ⟨image, rfl, ?_, ?_⟩
      · simpa [Items.segments, Items.emissions] using madeOf
      · simp [Items.checkedValues, Items.emissions]
  | cons item rest inductionHypothesis =>
      have later : ∀ content, Item.instruction content ∈ rest →
          ∃ code, content.encode = .ok code ∧ code.HasMasks :=
        fun content member =>
          encodes content (List.mem_cons_of_mem _ member)
      rw [List.foldlM_cons]
      cases item with
      | label line name => exact inductionHypothesis madeOf later
      | instruction content =>
          rcases encodes content List.mem_cons_self with
            ⟨code, encoded, masks⟩
          rcases (exists_emit_iff image code content.line).2 masks with
            ⟨middle, emitted⟩
          have step : emitItem image (.instruction content) =
              .ok middle := by
            rw [emitItem, encoded]
            dsimp only
            rw [emitted]
            rfl
          have emissions :
              Items.emissions (.instruction content :: rest) =
                (content.line, code) :: Items.emissions rest := by
            simp [Items.emissions, Item.emission?, encoded]
          rcases inductionHypothesis (madeOf.emit emitted) later with
            ⟨image', written, made, checked⟩
          rw [step]
          refine ⟨image', written, ?_, ?_⟩
          · simpa [Items.segments, emissions] using made
          · rw [checked, checkedValues_emit emitted]
            simp [Items.checkedValues, emissions]

/-- Items whose instructions all have codes give an image. -/
theorem ofItems_madeOf {items : List Item}
    (encodes : ∀ content, Item.instruction content ∈ items →
      ∃ code, content.encode = .ok code ∧ code.HasMasks) :
    ∃ image, ofItems items = .ok image ∧
      image.MadeOf (Items.segments items) ∧
      image.checkedValues = Items.checkedValues items :=
  foldlM_emitItem MadeOf.empty encodes

end Image

/-! ## Codes with known labels -/

/-- Replace the values of a code. -/
def Code.mapValues (replace : SymInt → SymInt) (code : Code) : Code where
  bytes := code.bytes
  fields := code.fields.map fun field =>
    { field with value := replace field.value }

theorem Code.hasMasks_mapValues_iff {replace : SymInt → SymInt}
    {code : Code} :
    (code.mapValues replace).HasMasks ↔ code.HasMasks := by
  simp [HasMasks, mapValues]

namespace Operation

theorem encodeAddressed_mapValues {replace : SymInt → SymInt}
    {opcode : Opcode} {width : Width} {operand : Option Operand}
    {right : Register} {code : Code}
    (encoded : encodeAddressed opcode width operand right = .ok code) :
    encodeAddressed opcode width
        (operand.map (Operand.mapValues replace)) right =
      .ok (code.mapValues replace) := by
  cases operand with
  | none => cases encoded
  | some operand =>
      cases encoded
      cases operand <;> rfl

/-- Known labels are replaced in codes, if data comes out as bytes. -/
theorem encode_substitute {addresses : Table Int} {operation : Operation}
    {code : Code} (encoded : operation.encode = .ok code)
    (bytes : ∀ values, operation = .data values → ∀ value ∈ values,
      IsByte (value.weigh (SymInt.addressWord addresses))) :
    (operation.mapValues (SymInt.substitute addresses)).encode =
      .ok (code.mapValues (SymInt.substitute addresses)) := by
  cases operation with
  | data values =>
      have inside : (values.map (SymInt.substitute addresses)).any
          isOutOfRange = false := by
        apply List.any_eq_false.2
        intro item member outside
        rcases List.mem_map.1 member with ⟨value, inValues, rfl⟩
        exact (isOutOfRange_iff.1 outside).2
          (bytes values rfl value inValues)
      rw [encode] at encoded
      split at encoded <;> cases encoded
      -- the check at the end has become the check of constants
      rw [mapValues, encode, inside, if_neg Bool.false_ne_true]
      simp [Code.mapValues, Function.comp_def]
  | jump opcode width target =>
      cases encoded
      rfl
  | reversible pair width left right reversed =>
      exact encodeAddressed_mapValues encoded
  | unary opcode width operand =>
      exact encodeAddressed_mapValues encoded
  | nullary opcode width =>
      cases encoded
      rfl

end Operation

namespace Code

/-- With known labels, fields hold their final values from the start. -/
theorem render_segments_substitute (addresses : Table Int) (code : Code)
    (line : Int) :
    ((code.mapValues (SymInt.substitute addresses)).segments line).flatMap
        (Segment.render Segment.baseWord) =
      (code.segments line).flatMap
        (Segment.render (Segment.finalWord addresses)) := by
  simp only [segments, mapValues, List.flatMap_cons, List.flatMap_map]
  rfl

theorem references_substitute {addresses : Table Int} {code : Code}
    (known : ∀ field ∈ code.fields, ∀ label,
      field.value.coefficient label ≠ 0 →
        addresses.contains label = true) (line : Int) :
    ((code.mapValues (SymInt.substitute addresses)).segments line).flatMap
        Segment.references = [] := by
  simp only [segments, mapValues, List.flatMap_cons, List.flatMap_map,
    List.append_eq_nil_iff, List.flatMap_eq_nil_iff]
  refine ⟨rfl, ?_⟩
  intro field member
  have constant := SymInt.isConstant_substitute (known field member)
  rw [Segment.references, SymInt.terms_eq_nil_iff.2 constant]
  rfl

theorem checkedValues_substitute {addresses : Table Int} {code : Code}
    (known : ∀ field ∈ code.fields, ∀ label,
      field.value.coefficient label ≠ 0 →
        addresses.contains label = true) :
    (code.mapValues (SymInt.substitute addresses)).checkedValues = [] := by
  rw [checkedValues, List.map_eq_nil_iff, List.filter_eq_nil_iff]
  intro field member
  rcases List.mem_map.1 member with ⟨old, inFields, rfl⟩
  have constant := SymInt.isConstant_substitute (known old inFields)
  simp [constant]

end Code

namespace Items

theorem mem_codes {items : List Item} {content : Instruction}
    {code : Code} (member : .instruction content ∈ items)
    (encoded : content.encode = .ok code) : code ∈ codes items := by
  apply List.mem_map.2
  refine ⟨(content.line, code), List.mem_filterMap.2 ⟨_, member, ?_⟩, rfl⟩
  rw [Item.emission?, encoded]

theorem Accepted.declared_of_data {constants : Table Int64}
    {items : List Item} {line : Int} {values : List SymInt}
    {value : SymInt} {label : Text} (accepted : Accepted constants items)
    (member : .instruction ⟨line, .data values⟩ ∈ items)
    (inValues : value ∈ values) (used : value.coefficient label ≠ 0) :
    declares items label = true := by
  have inside : values.any Operation.isOutOfRange = false := by
    apply List.any_eq_false.2
    intro item inItems outside
    rcases Operation.isOutOfRange_iff.1 outside with ⟨fixed, excess⟩
    exact excess (accepted.constantBytes line values member item inItems
      fixed)
  have encoded : (⟨line, .data values⟩ : Instruction).encode =
      .ok ⟨[], values.map fun item => ⟨item, .byte, true⟩⟩ := by
    simp [Instruction.encode, Operation.encode, inside]
  exact accepted.declared _ (mem_codes member encoded) _
    (List.mem_map.2 ⟨value, inValues, rfl⟩) label used

/-- The addresses are all that is needed to write the items. -/
structure Resolved (addresses : Table Int) (items : List Item) :
    Prop where
  encodes : ∀ content, Item.instruction content ∈ items →
    ∃ code, content.encode = .ok code
  masks : ∀ code ∈ codes items, code.HasMasks
  bytes : ∀ line values, .instruction ⟨line, .data values⟩ ∈ items →
    ∀ value ∈ values, IsByte (value.weigh (SymInt.addressWord addresses))
  known : ∀ code ∈ codes items, ∀ field ∈ code.fields, ∀ label,
    field.value.coefficient label ≠ 0 → addresses.contains label = true

variable {addresses : Table Int} {items : List Item}

theorem Resolved.encode_mapValues (resolved : Resolved addresses items)
    {content : Instruction} {code : Code}
    (member : .instruction content ∈ items)
    (encoded : content.encode = .ok code) :
    (⟨content.line, content.operation.mapValues
        (SymInt.substitute addresses)⟩ : Instruction).encode =
      .ok (code.mapValues (SymInt.substitute addresses)) := by
  apply Instruction.encode_eq_ok_iff.2
  apply Operation.encode_substitute
    (Instruction.encode_eq_ok_iff.1 encoded)
  rintro values data
  rcases content with ⟨line, operation⟩
  cases data
  exact resolved.bytes line values member

/-- Replacing known labels replaces them in the codes. -/
theorem Resolved.emissions_mapValues
    (resolved : Resolved addresses items) :
    emissions (items.map (Item.mapValues (SymInt.substitute addresses))) =
      (emissions items).map fun emission =>
        (emission.1, emission.2.mapValues (SymInt.substitute addresses)) := by
  rw [emissions, emissions, List.filterMap_map, List.map_filterMap]
  apply List.filterMap_congr
  intro item member
  cases item with
  | label line name => rfl
  | instruction content =>
      rcases resolved.encodes content member with ⟨code, encoded⟩
      have replaced := resolved.encode_mapValues member encoded
      simp [Item.mapValues, Item.emission?, encoded, replaced]

/-- Items with known labels are written in one go. -/
theorem Resolved.ofItems_mapValues (resolved : Resolved addresses items) :
    ∃ image,
      Image.ofItems
          (items.map (Item.mapValues (SymInt.substitute addresses))) =
        .ok image ∧
      image.relocations = #[] ∧ image.checks = #[] ∧
      image.data.toList = (segments items).flatMap
        (Segment.render (Segment.finalWord addresses)) := by
  have known : ∀ emission ∈ emissions items,
      ∀ field ∈ emission.2.fields, ∀ label,
        field.value.coefficient label ≠ 0 →
          addresses.contains label = true := fun emission member =>
    resolved.known emission.2 (List.mem_map_of_mem member)
  have emitted := resolved.emissions_mapValues
  have encodes : ∀ content, Item.instruction content ∈
      items.map (Item.mapValues (SymInt.substitute addresses)) →
        ∃ code, content.encode = .ok code ∧ code.HasMasks := by
    intro content member
    rcases List.mem_map.1 member with ⟨item, inItems, replaced⟩
    cases item with
    | label line name => cases replaced
    | instruction old =>
        cases replaced
        rcases resolved.encodes old inItems with ⟨code, encoded⟩
        have masks := resolved.masks code (mem_codes inItems encoded)
        exact ⟨_, resolved.encode_mapValues inItems encoded,
          Code.hasMasks_mapValues_iff.2 masks⟩
  rcases Image.ofItems_madeOf encodes with
    ⟨image, written, madeOf, checked⟩
  refine ⟨image, written, ?_, ?_, ?_⟩
  · have none := Segment.map_relocationsFrom 0 (segments
      (items.map (Item.mapValues (SymInt.substitute addresses))))
    rw [← madeOf.relocations, segments, emitted, List.flatMap_map,
      List.flatMap_assoc, List.flatMap_eq_nil_iff.2,
      List.map_eq_nil_iff, Array.toList_eq_nil_iff] at none
    · exact none
    · intro emission member
      exact Code.references_substitute (known emission member) emission.1
  · rw [checkedValues, emitted, List.flatMap_map,
      List.flatMap_eq_nil_iff.2, Image.checkedValues,
      List.map_eq_nil_iff, Array.toList_eq_nil_iff] at checked
    · exact checked
    · intro emission member
      rw [Code.checkedValues_substitute (known emission member)]
      rfl
  · rw [madeOf.data, segments, emitted, segments, List.flatMap_map,
      List.flatMap_assoc, List.flatMap_assoc]
    apply List.flatMap_congr
    intro emission _
    exact Code.render_segments_substitute addresses emission.2 emission.1

end Items

namespace Assembler

variable {language : FormulaLanguage} {assembler : Assembler}
  {text : Text} {program : Program} {items : List Item}
  {fault : Option Error}

/-- The symbol table of a program has no name of a constant. -/
theorem disjoint_of_assembleWith
    (assembled :
      assembler.assembleWith language (.ok text) = .ok program)
    (delivered :
      (assembler.parser language text).Delivers items fault) :
    Parse.Disjoint assembler.constants program.symbols := by
  have accepted := accepted_of_assembleWith assembled delivered
  rcases laidOut_of_assembleWith assembled delivered with
    ⟨-, layout, -, laidOut, finished⟩
  rcases Layout.finish_eq_ok_iff.1 finished with ⟨-, -, _, -, rfl⟩
  intro name declared
  rcases Option.isSome_iff_exists.1 declared with ⟨address, found⟩
  rcases laidOut.find?_eq_some_iff.1 found with
    ⟨front, line, back, split, -⟩
  exact (accepted.labels front line name back split).2

/-- The symbol table of a program resolves its items. -/
theorem resolved_of_assembleWith
    (assembled :
      assembler.assembleWith language (.ok text) = .ok program)
    (delivered :
      (assembler.parser language text).Delivers items fault) :
    Items.Resolved program.symbols items := by
  have accepted := accepted_of_assembleWith assembled delivered
  rcases laidOut_of_assembleWith assembled delivered with
    ⟨-, layout, -, laidOut, finished⟩
  rcases Layout.finish_eq_ok_iff.1 finished with ⟨-, -, _, -, rfl⟩
  refine ⟨laidOut.encodes, ?_, ?_, ?_⟩
  · intro code inCodes
    rcases List.mem_map.1 inCodes with ⟨emission, member, rfl⟩
    exact Code.hasMasks_of_supported
      (Items.codes_supported (supported_of_assembleWith assembled)
        delivered.ofMachine emission member)
  · intro line values member value inValues
    cases fixed : value.isConstant with
    | true =>
        rw [SymInt.weigh_of_isConstant fixed]
        exact accepted.constantBytes line values member value inValues
          fixed
    | false =>
        rw [laidOut.weigh_eq_finalValue]
        · exact accepted.symbolicBytes line values member value inValues
            fixed
        · intro term inTerms
          have nonzero := SymInt.mem_terms_iff.1 inTerms
          exact accepted.declared_of_data member inValues
            (nonzero.2 ▸ nonzero.1)
  · intro code inCodes field inFields label used
    rw [laidOut.contains_eq]
    exact accepted.declared code inCodes field inFields label used

/-- With known labels, the items of a program give its image at once. -/
theorem ofItems_of_assembleWith
    (assembled :
      assembler.assembleWith language (.ok text) = .ok program)
    (delivered :
      (assembler.parser language text).Delivers items fault) :
    ∃ image,
      Image.ofItems
          (items.map
            (Item.mapValues (SymInt.substitute program.symbols))) =
        .ok image ∧
      image.relocations = #[] ∧ image.checks = #[] ∧
      image.data = program.binary := by
  have resolved := resolved_of_assembleWith assembled delivered
  rcases laidOut_of_assembleWith assembled delivered with
    ⟨-, layout, -, laidOut, finished⟩
  rcases resolved.ofItems_mapValues with
    ⟨image, written, relocations, checks, data⟩
  refine ⟨image, written, relocations, checks, ?_⟩
  rcases Layout.finish_eq_ok_iff.1 finished with
    ⟨-, -, patchedImage, patched, rfl⟩
  rw [← laidOut.madeOf.toList_patchAll patched] at data
  exact Array.toList_inj.1 data

/--
Reading the labels of a program as numbers gives its image again.

The parser gets the same text, formulas and width, and the symbol table of
the program for further values of names.  It comes to the end of the text,
and writing the codes of its instructions leaves no relocation and no check.
-/
theorem assembleWith_eq_knownLabels
    (assembled :
      assembler.assembleWith language (.ok text) = .ok program) :
    ∃ items image,
      (Parser.ofText
          (some (language assembler.defaultWidth assembler.constants))
          assembler.defaultWidth
          (assembler.constants.withLabels program.symbols)
          text).Delivers items none ∧
        Image.ofItems items = .ok image ∧
        image.relocations = #[] ∧ image.checks = #[] ∧
        image.data = program.binary := by
  have delivered := assembler.parser_delivers language text
  have disjoint := disjoint_of_assembleWith assembled delivered
  rcases laidOut_of_assembleWith assembled delivered with ⟨ended, -⟩
  rcases ofItems_of_assembleWith assembled delivered with
    ⟨image, written, relocations, checks, data⟩
  rw [ended] at delivered
  exact ⟨_, image, delivered.withLabels disjoint, written, relocations,
    checks, data⟩

/-- Labels before and after their use, and a count in which one cancels. -/
def cancelledCount : Text :=
  Text.ascii
    "jmp end\n.start\ntimes end - end + 2, start\ndata end - start\n.end"

theorem cancelledCount_knownLabels :
    ∃ program items image,
      initial.assembleWith noFormulas (.ok cancelledCount) =
          .ok program ∧
        (Parser.ofText (some (noFormulas .byte ∅)) .byte
          ((∅ : Table Int64).withLabels program.symbols)
          cancelledCount).Delivers items none ∧
        Image.ofItems items = .ok image ∧
        image.relocations = #[] ∧ image.checks = #[] ∧
        image.data = program.binary ∧
        image.data.toList = [8, 5, 2, 2, 3] := by
  have evaluated :
      ((initial.assembleWith noFormulas (.ok cancelledCount)).map
        fun program => program.binary.toList).toOption =
        some [8, 5, 2, 2, 3] := by
    decide +kernel
  cases assembled :
      initial.assembleWith noFormulas (.ok cancelledCount) with
  | error fault =>
      rw [assembled] at evaluated
      cases evaluated
  | ok program =>
      rw [assembled] at evaluated
      rcases assembleWith_eq_knownLabels assembled with
        ⟨items, image, delivered, written, relocations, checks, data⟩
      refine ⟨program, items, image, rfl, delivered, written, relocations,
        checks, data, ?_⟩
      rw [data]
      exact Option.some.inj evaluated

end Assembler

end FlatAsm
