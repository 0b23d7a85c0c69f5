import FlatAsm.Proofs.ItemLayout

/-!
# One pass and relocations do the work of two passes

An assembler with two passes first adds up the sizes of the codes, which
gives an address to every label, and then writes each field with its value
under these addresses.  The assembler of this library takes one pass and
patches fields at the end.  The main theorem of this module says that its
programs are those of the two passes.
-/

namespace FlatAsm

/-- The parser of an assembler over a text. -/
def Assembler.parser (assembler : Assembler) (language : FormulaLanguage)
    (text : Text) : Parser :=
  Parser.ofText
    (some (language assembler.defaultWidth assembler.constants))
    assembler.defaultWidth assembler.constants text

/-- What an assembler parses a text into. -/
def Assembler.parsed (assembler : Assembler) (language : FormulaLanguage)
    (text : Text) : Parsed :=
  parse assembler.defaultWidth assembler.constants
    (tokenize
      (some (language assembler.defaultWidth assembler.constants)) text)

theorem Assembler.parser_delivers (assembler : Assembler)
    (language : FormulaLanguage) (text : Text) :
    (assembler.parser language text).Delivers
      (assembler.parsed language text).items
      (assembler.parsed language text).fault :=
  Parser.parse_delivers _ _ _

/-- The bytes of a code under given addresses, in one go. -/
def Code.finished (addresses : Table Int) (code : Code) : List UInt8 :=
  code.bytes ++ code.fields.flatMap fun field =>
    let value := field.value.exactly fun label =>
      (addresses.find? label).getD 0
    LittleEndian.digits field.width.size
      (value % 2 ^ (8 * field.width.size)).toNat

namespace Code

/-- A patched field holds its value modulo its size. -/
theorem write_finalWord {field : Field} (addresses : Table Int)
    (supported : field.width.isSupported = true) :
    LittleEndian.write field.width.size
        (Segment.finalWord addresses field.value) =
      LittleEndian.digits field.width.size
        ((field.value.exactly fun label =>
          (addresses.find? label).getD 0) %
            2 ^ (8 * field.width.size)).toNat := by
  have short := Width.size_le_of_isSupported supported
  have wrapped := SymInt.ofInt_exactly
    (fun label => (addresses.find? label).getD 0) field.value
  rw [Segment.finalWord, ← LittleEndian.write_ofInt short, wrapped]
  rfl

theorem render_segments {code : Code} (addresses : Table Int) (line : Int)
    (supported : ∀ field ∈ code.fields,
      field.width.isSupported = true) :
    (code.segments line).flatMap
        (Segment.render (Segment.finalWord addresses)) =
      code.finished addresses := by
  rw [Code.segments, List.flatMap_cons, Code.finished, List.flatMap_map]
  congr 1
  apply List.flatMap_congr
  intro field member
  rw [Segment.render, Width.holding_of_isSupported (supported field member)]
  exact write_finalWord addresses (supported field member)

end Code

namespace Items

theorem codes_supported {default : Width} {items : List Item}
    (supported : default.isSupported = true)
    (ofMachine : ∀ item ∈ items, item.OfMachine default) :
    ∀ emission ∈ emissions items, ∀ field ∈ emission.2.fields,
      field.width.isSupported = true := by
  intro emission member
  obtain ⟨item, inItems, emitted⟩ := List.mem_filterMap.1 member
  have itemOfMachine := ofMachine item inItems
  unfold Item.emission? at emitted
  split at emitted
  · cases emitted
  · next content =>
    split at emitted <;> cases emitted
    next code encoded =>
    exact Operation.encode_supported supported itemOfMachine
      (Instruction.encode_eq_ok_iff.1 encoded)

theorem render_segments {default : Width} {items : List Item}
    (addresses : Table Int) (supported : default.isSupported = true)
    (ofMachine : ∀ item ∈ items, item.OfMachine default) :
    (segments items).flatMap
        (Segment.render (Segment.finalWord addresses)) =
      (codes items).flatMap (Code.finished addresses) := by
  have widths := codes_supported supported ofMachine
  rw [segments, List.flatMap_assoc, codes, List.flatMap_map]
  apply List.flatMap_congr
  intro emission member
  exact Code.render_segments addresses emission.1 (widths emission member)

end Items

namespace Layout

/-- What it takes to finish a layout, and what comes out. -/
theorem finish_eq_ok_iff {layout : Layout} {program : Program} :
    layout.finish = .ok program ↔
      layout.image.unresolved? = none ∧
        layout.image.checks.find? layout.image.failsCheck = none ∧
        ∃ image, layout.image.patchAll = .ok image ∧
          program = ⟨image.data, layout.image.symbols,
            layout.statements.toList⟩ := by
  unfold finish Image.applyRelocations
  cases layout.image.unresolved? with
  | some relocation => simp
  | none =>
      cases patched : layout.image.patchAll with
      | error reason => simp
      | ok image =>
          obtain ⟨data, -, rfl⟩ := Image.patchAll_eq_ok_iff.1 patched
          cases layout.image.checks.find? layout.image.failsCheck with
          | some check => simp
          | none => simp [eq_comm]

theorem exists_finish_iff {layout : Layout} :
    (∃ program, layout.finish = .ok program) ↔
      layout.image.unresolved? = none ∧
        layout.image.checks.find? layout.image.failsCheck = none ∧
        ∃ image, layout.image.patchAll = .ok image := by
  simp only [finish_eq_ok_iff]
  constructor
  · rintro ⟨_, resolved, checks, image, patched, -⟩
    exact ⟨resolved, checks, image, patched⟩
  · rintro ⟨resolved, checks, image, patched⟩
    exact ⟨_, resolved, checks, image, patched, rfl⟩

end Layout

namespace LaidOut

/-- Labels stand for the size of what precedes their declarations. -/
theorem find?_eq_some_iff {items : List Item} {layout : Layout}
    (laidOut : LaidOut items layout) {name : Text} {address : Int} :
    layout.image.symbols.find? name = some address ↔
      ∃ front line back, items = front ++ .label line name :: back ∧
        address = Items.size front := by
  rw [laidOut.symbols]
  constructor
  · intro found
    split at found
    · next declared =>
      obtain ⟨line, member⟩ := Items.declares_iff.1 declared
      obtain ⟨front, back, split⟩ := List.append_of_mem member
      have fresh := laidOut.fresh front line name back split
      have placed := Items.address_declaration fresh line back
      rw [← split] at placed
      cases found
      exact ⟨front, line, back, split, placed⟩
    · cases found
  · rintro ⟨front, line, back, split, rfl⟩
    have fresh := laidOut.fresh front line name back split
    have declared : Items.declares items name = true := by
      rw [Items.declares_iff, split]
      exact ⟨line, by simp⟩
    rw [if_pos declared, split, Items.address_declaration fresh]

/-- The labels of a layout's relocations are those of its fields. -/
theorem map_relocations {items : List Item} {layout : Layout}
    (laidOut : LaidOut items layout) :
    layout.image.relocations.toList.map
        (fun relocation => (relocation.line, relocation.symbol)) =
      (Items.segments items).flatMap Segment.references := by
  rw [laidOut.madeOf.relocations, Segment.map_relocationsFrom]

/-- Where no relocation is left over, all labels of fields are declared. -/
theorem contains_of_unresolved {items : List Item} {layout : Layout}
    (laidOut : LaidOut items layout)
    (resolved : layout.image.unresolved? = none) :
    ∀ code ∈ Items.codes items, ∀ field ∈ code.fields,
      ∀ term ∈ field.value.terms,
        layout.image.symbols.contains term.1 = true := by
  intro code inCodes field inFields term inTerms
  obtain ⟨⟨line, _⟩, inEmissions, rfl⟩ := List.mem_map.1 inCodes
  have referenced : (line, term.1) ∈
      (Items.segments items).flatMap Segment.references := by
    apply List.mem_flatMap.2
    refine ⟨.field field.value field.width line, ?_, ?_⟩
    · apply List.mem_flatMap.2
      refine ⟨_, inEmissions, List.mem_cons_of_mem _ ?_⟩
      exact List.mem_map.2 ⟨field, inFields, rfl⟩
    · exact List.mem_map.2 ⟨term, inTerms, rfl⟩
  rw [← laidOut.map_relocations] at referenced
  obtain ⟨relocation, kept, same⟩ := List.mem_map.1 referenced
  have known := Array.find?_eq_none.1 resolved relocation
    (Array.mem_toList_iff.1 kept)
  rw [← (Prod.mk.inj same).2]
  simpa using known

end LaidOut

namespace Assembler

/-- Assembling a text is assembling what its parser delivers. -/
theorem assembleWith_eq {language : FormulaLanguage}
    {assembler : Assembler} {text : Text} {items : List Item}
    {fault : Option Error}
    (supported : assembler.defaultWidth.isSupported = true)
    (delivered :
      (assembler.parser language text).Delivers items fault) :
    assembler.assembleWith language (.ok text) =
      assembleParsed assembler.constants ⟨items, fault⟩ := by
  rcases delivered.unique (assembler.parser_delivers language text) with
    ⟨rfl, rfl⟩
  simp [assembleWith, supported, assembleText, parsed]

theorem supported_of_assembleWith {language : FormulaLanguage}
    {assembler : Assembler} {source : Except Text Text}
    {program : Program}
    (assembled : assembler.assembleWith language source = .ok program) :
    assembler.defaultWidth.isSupported = true := by
  by_contra unsupported
  rw [Bool.not_eq_true] at unsupported
  simp [assembleWith, unsupported] at assembled

/-- A program is the finished layout of the items of its text. -/
theorem laidOut_of_assembleWith {language : FormulaLanguage}
    {assembler : Assembler} {text : Text} {program : Program}
    {items : List Item} {fault : Option Error}
    (assembled :
      assembler.assembleWith language (.ok text) = .ok program)
    (delivered :
      (assembler.parser language text).Delivers items fault) :
    fault = none ∧
      ∃ layout, Layout.ofItems assembler.constants items = .ok layout ∧
        LaidOut items layout ∧ layout.finish = .ok program := by
  have supported := supported_of_assembleWith assembled
  rw [assembleWith_eq supported delivered, assembleParsed] at assembled
  split at assembled
  · cases assembled
  · next layout placed =>
    have laidOut := LaidOut.ofItems supported delivered.ofMachine placed
    cases fault with
    | some fault => cases assembled
    | none => exact ⟨rfl, layout, placed, laidOut, assembled⟩

/--
A program is what two passes over the items of its text would give.

Its labels are those that are declared, each at the total size of the codes
before it.  Its image is made of the codes in order, every field holding its
value under the addresses of all labels modulo the size of the field.
-/
theorem assembleWith_eq_twoPass {language : FormulaLanguage}
    {assembler : Assembler} {text : Text} {program : Program}
    {items : List Item} {fault : Option Error}
    (assembled :
      assembler.assembleWith language (.ok text) = .ok program)
    (delivered :
      (assembler.parser language text).Delivers items fault) :
    fault = none ∧
      (∀ content, .instruction content ∈ items →
        ∃ code, content.encode = .ok code) ∧
      (∀ name address, program.symbols.find? name = some address ↔
        ∃ front line back, items = front ++ .label line name :: back ∧
          address = Items.size front) ∧
      (∀ code ∈ Items.codes items, ∀ field ∈ code.fields, ∀ label,
        field.value.coefficient label ≠ 0 →
          program.symbols.contains label = true) ∧
      program.binary.toList =
        (Items.codes items).flatMap (Code.finished program.symbols) := by
  have supported := supported_of_assembleWith assembled
  obtain ⟨ended, layout, -, laidOut, finished⟩ :=
    laidOut_of_assembleWith assembled delivered
  obtain ⟨resolved, -, image, patched, rfl⟩ :=
    Layout.finish_eq_ok_iff.1 finished
  refine ⟨ended, laidOut.encodes, ?_, ?_, ?_⟩
  · intro name address
    exact laidOut.find?_eq_some_iff
  · intro code inCodes field inFields label used
    have term : (label, field.value.coefficient label) ∈
        field.value.terms :=
      SymInt.mem_terms_iff.2 ⟨used, rfl⟩
    exact laidOut.contains_of_unresolved resolved code inCodes field
      inFields _ term
  · rw [laidOut.madeOf.toList_patchAll patched]
    exact Items.render_segments layout.image.symbols supported
      delivered.ofMachine

/-- A language in which no formula has a value. -/
def noFormulas : FormulaLanguage :=
  fun _ _ formula _ => .error (.formulaInvalid formula)

/-- Labels before and after their use, twice and with either sign. -/
def mixedReferences : Text :=
  Text.ascii
    "jmp end\n.start\ndata end - start + 1\n.end\njmp start - end - end"

/-- The image of a text with all kinds of references, by both ways. -/
theorem mixedReferences_twoPass :
    ∃ program items,
      initial.assembleWith noFormulas (.ok mixedReferences) =
          .ok program ∧
        (initial.parser noFormulas mixedReferences).Delivers items none ∧
        program.binary.toList =
          (Items.codes items).flatMap (Code.finished program.symbols) ∧
        program.binary.toList = [8, 3, 2, 8, 252] := by
  have evaluated :
      ((initial.assembleWith noFormulas (.ok mixedReferences)).map
        fun program => program.binary.toList).toOption =
        some [8, 3, 2, 8, 252] := by
    decide +kernel
  have delivered := initial.parser_delivers noFormulas mixedReferences
  cases assembled :
      initial.assembleWith noFormulas (.ok mixedReferences) with
  | error fault =>
      rw [assembled] at evaluated
      cases evaluated
  | ok program =>
      rw [assembled] at evaluated
      obtain ⟨ended, -, -, -, image⟩ :=
        assembleWith_eq_twoPass assembled delivered
      rw [ended] at delivered
      exact ⟨program, _, rfl, delivered, image, Option.some.inj evaluated⟩

end Assembler

end FlatAsm
