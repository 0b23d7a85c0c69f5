import FlatAsm.Proofs.TwoPass
import Mathlib.Data.List.Find

/-!
# When assembling succeeds, and which error it reports

Some faults show as soon as an item is laid out: a label that is already
taken, and a constant that is no byte.  The first of them in the order of the
text is reported, before an error of the parser, which comes after all items.
Faults that depend on the addresses of labels show at the end: first labels
that are declared nowhere, and then bytes that come out too large or too
small.

The main theorem of this module states the exact condition for success and
the exact error otherwise, in terms of the items of the text.
-/

namespace FlatAsm

/-- The number of an unsigned byte. -/
def IsByte (number : Int64) : Prop :=
  0 ≤ number.toInt ∧ number.toInt ≤ 0xff

instance (number : Int64) : Decidable (IsByte number) :=
  inferInstanceAs (Decidable (_ ∧ _))

theorem not_isByte_iff {number : Int64} :
    ¬ IsByte number ↔ (number < 0 || number > 0xff) = true := by
  have zero : (0 : Int64).toInt = 0 := by decide
  have largest : (0xff : Int64).toInt = 0xff := by decide
  rw [IsByte, Bool.or_eq_true, decide_eq_true_iff, decide_eq_true_iff,
    gt_iff_lt, Int64.lt_iff_toInt_lt, Int64.lt_iff_toInt_lt, zero, largest]
  omega

namespace Operation

theorem isOutOfRange_iff {value : SymInt} :
    isOutOfRange value = true ↔
      value.isConstant = true ∧ ¬ IsByte value.base := by
  rw [isOutOfRange, Bool.and_eq_true, not_isByte_iff]

/-- Only data can fail to be encoded, for a constant that is no byte. -/
theorem encode_eq_error_iff {default : Width} {operation : Operation}
    (ofMachine : operation.OfMachine default) {cause : Cause} :
    operation.encode = .error cause ↔
      ∃ values, operation = .data values ∧ cause = .dataRange ∧
        ∃ value ∈ values,
          value.isConstant = true ∧ ¬ IsByte value.base := by
  cases ofMachine with
  | @data values =>
      simp only [encode, data.injEq, exists_eq_left']
      by_cases outside : values.any isOutOfRange = true
      · have found := List.any_eq_true.1 outside
        simp only [isOutOfRange_iff] at found
        rw [if_pos outside, Except.error.injEq, eq_comm]
        exact (and_iff_left found).symm
      · have absent : ¬ ∃ value ∈ values,
            value.isConstant = true ∧ ¬ IsByte value.base := by
          rintro ⟨value, member, excess⟩
          exact outside
            (List.any_eq_true.2 ⟨value, member, isOutOfRange_iff.2 excess⟩)
        simp [outside, absent]
  | jump => simp [encode]
  | reversible => simp [encode, encodeAddressed]
  | unary => simp [encode, encodeAddressed]
  | nullary => simp [encode]

end Operation

namespace Items

/-! ## Faults of items -/

/-- What is wrong with an item, given the items before it. -/
inductive Fault (constants : Table Int64) (before : List Item) :
    Item → Error → Prop where
  | duplicate {line : Int} {name : Text}
      (taken : declares before name = true ∨
        constants.contains name = true) :
      Fault constants before (.label line name)
        (.malformed line (0x2e :: name) .labelDuplicate)
  | range {line : Int} {values : List SymInt} {value : SymInt}
      (member : value ∈ values) (fixed : value.isConstant = true)
      (outside : ¬ IsByte value.base) :
      Fault constants before (.instruction ⟨line, .data values⟩)
        (.operand line (Text.ascii "data") .dataRange)

/-- Nothing is wrong with any of the items. -/
def Sound (constants : Table Int64) (items : List Item) : Prop :=
  ∀ front item back error, items = front ++ item :: back →
    ¬ Fault constants front item error

/-- The error is that of the first item with which something is wrong. -/
def FirstFault (constants : Table Int64) (items : List Item)
    (error : Error) : Prop :=
  ∃ front item back, items = front ++ item :: back ∧
    Sound constants front ∧ Fault constants front item error

theorem sound_concat_iff {constants : Table Int64} {items : List Item}
    {last : Item} :
    Sound constants (items ++ [last]) ↔
      Sound constants items ∧
        ∀ error, ¬ Fault constants items last error := by
  constructor
  · intro sound
    constructor
    · intro front item back error split
      apply sound front item (back ++ [last]) error
      rw [split]
      simp
    · intro error
      exact sound items last [] error rfl
  · rintro ⟨sound, unfaulted⟩ front item back error split
    rcases concat_eq_append_cons_iff.1 split with
      ⟨-, rfl, rfl⟩ | ⟨rest, -, earlier⟩
    · exact unfaulted error
    · exact sound front item rest error earlier

theorem firstFault_concat_iff {constants : Table Int64}
    {items : List Item} {last : Item} {error : Error} :
    FirstFault constants (items ++ [last]) error ↔
      FirstFault constants items error ∨
        (Sound constants items ∧ Fault constants items last error) := by
  constructor
  · rintro ⟨front, item, back, split, sound, fault⟩
    rcases concat_eq_append_cons_iff.1 split with
      ⟨-, rfl, rfl⟩ | ⟨rest, -, earlier⟩
    · exact .inr ⟨sound, fault⟩
    · exact .inl ⟨front, item, rest, earlier, sound, fault⟩
  · rintro (⟨front, item, back, rfl, sound, fault⟩ | ⟨sound, fault⟩)
    · exact ⟨front, item, back ++ [last], by simp, sound, fault⟩
    · exact ⟨items, last, [], rfl, sound, fault⟩

end Items

/-- Laying an item out fails exactly where something is wrong with it. -/
theorem LaidOut.place_eq_error_iff {default : Width}
    {constants : Table Int64} {items : List Item} {layout : Layout}
    {item : Item} {error : Error} (supported : default.isSupported = true)
    (laidOut : LaidOut items layout)
    (ofMachine : item.OfMachine default) :
    layout.place constants item = .error error ↔
      Items.Fault constants items item error := by
  cases item with
  | label line name =>
      simp only [Layout.place, Layout.declare, laidOut.contains_eq,
        Bool.or_eq_true]
      constructor
      · intro failed
        split at failed <;> cases failed
        next taken => exact .duplicate taken
      · rintro (taken | _)
        rw [if_pos taken]
  | instruction content =>
      rcases content with ⟨line, operation⟩
      have encoding := @Operation.encode_eq_error_iff _ _ ofMachine
      rw [Layout.place]
      constructor
      · intro failed
        cases encoded : operation.encode with
        | ok code =>
            have masks := Code.hasMasks_of_supported
              (Operation.encode_supported supported ofMachine encoded)
            obtain ⟨after, placed⟩ := (@Layout.exists_append_iff layout
              ⟨line, operation⟩).2
                ⟨code, Instruction.encode_eq_ok_iff.2 encoded, masks⟩
            cases failed.symm.trans placed
        | error cause =>
            rw [Layout.append, Instruction.encode, encoded] at failed
            cases failed
            obtain ⟨values, rfl, rfl, value, member, fixed, outside⟩ :=
              encoding.1 encoded
            exact .range member fixed outside
      · rintro (_ | ⟨member, fixed, outside⟩)
        rw [Layout.append, Instruction.encode,
          encoding.2 ⟨_, rfl, rfl, _, member, fixed, outside⟩]
        rfl

namespace Layout

variable {default : Width} {constants : Table Int64} {items : List Item}

/-- Items can be laid out if nothing is wrong with any of them. -/
theorem ofItems_eq_ok_iff (supported : default.isSupported = true)
    (ofMachine : ∀ item ∈ items, item.OfMachine default) :
    (∃ layout, ofItems constants items = .ok layout) ↔
      Items.Sound constants items := by
  induction items using List.reverseRecOn with
  | nil =>
      constructor
      · intro _ front item back error split
        simp at split
      · intro _
        exact ⟨_, rfl⟩
  | append_singleton items last inductionHypothesis =>
      have earlierOfMachine : ∀ item ∈ items, item.OfMachine default :=
        fun item member => ofMachine item (by simp [member])
      have lastOfMachine := ofMachine last (by simp)
      rw [Items.sound_concat_iff, ← inductionHypothesis earlierOfMachine,
        ofItems_concat]
      cases placed : ofItems constants items with
      | error fault => simp [Except.bind]
      | ok layout =>
          have laidOut :=
            LaidOut.ofItems supported earlierOfMachine placed
          have failing := fun error =>
            @LaidOut.place_eq_error_iff _ constants _ _ _ error supported
              laidOut lastOfMachine
          simp only [← failing, Except.bind]
          cases layout.place constants last <;> simp

/-- Otherwise the first item with a fault is reported. -/
theorem ofItems_eq_error_iff (supported : default.isSupported = true)
    (ofMachine : ∀ item ∈ items, item.OfMachine default)
    {error : Error} :
    ofItems constants items = .error error ↔
      Items.FirstFault constants items error := by
  induction items using List.reverseRecOn with
  | nil =>
      constructor
      · intro failed
        cases failed
      · rintro ⟨front, item, back, split, -⟩
        simp at split
  | append_singleton items last inductionHypothesis =>
      have earlierOfMachine : ∀ item ∈ items, item.OfMachine default :=
        fun item member => ofMachine item (by simp [member])
      have lastOfMachine := ofMachine last (by simp)
      have accepted := @ofItems_eq_ok_iff _ constants _ supported
        earlierOfMachine
      rw [Items.firstFault_concat_iff, ← accepted,
        ← inductionHypothesis earlierOfMachine, ofItems_concat]
      cases placed : ofItems constants items with
      | error fault => simp [Except.bind]
      | ok layout =>
          have laidOut :=
            LaidOut.ofItems supported earlierOfMachine placed
          have failing := @LaidOut.place_eq_error_iff _ constants _ _ _
            error supported laidOut lastOfMachine
          simp [Except.bind, failing]

end Layout

/-! ## Faults that depend on addresses -/

namespace Items

/--
The labels that fields depend on, each with the line of its statement.

They stand in the order of statements, then of fields, then of names.
-/
def references (items : List Item) : List (Int × Text) :=
  (emissions items).flatMap fun emission =>
    emission.2.fields.flatMap fun field =>
      field.value.terms.map fun term => (emission.1, term.1)

/-- The data bytes of an item that depend on labels, with its line. -/
def symbolicBytesOf : Item → List (Int × SymInt)
  | .instruction ⟨line, .data values⟩ =>
      (values.filter fun value => !value.isConstant).map fun value =>
        (line, value)
  | _ => []

/-- The data bytes that depend on labels, in order, with their lines. -/
def symbolicBytes (items : List Item) : List (Int × SymInt) :=
  items.flatMap symbolicBytesOf

/-- The value under the addresses of all labels, as a word. -/
def finalValue (items : List Item) (value : SymInt) : Int64 :=
  Int64.ofInt (value.exactly (address items))

theorem references_eq_segments (items : List Item) :
    references items = (segments items).flatMap Segment.references := by
  rw [segments, List.flatMap_assoc, references]
  apply List.flatMap_congr
  intro emission _
  rw [Code.segments, List.flatMap_cons, List.flatMap_map]
  rfl

theorem mem_references_iff {items : List Item} {label : Text} :
    (∃ line, (line, label) ∈ references items) ↔
      ∃ code ∈ codes items, ∃ field ∈ code.fields,
        field.value.coefficient label ≠ 0 := by
  simp only [references, codes, List.mem_flatMap, List.mem_map,
    Prod.mk.injEq]
  constructor
  · rintro ⟨_, emission, emitted, field, inFields, term, inTerms,
      -, rfl⟩
    have nonzero := SymInt.mem_terms_iff.1 inTerms
    refine ⟨emission.2, ⟨emission, emitted, rfl⟩, field, inFields, ?_⟩
    rw [nonzero.2]
    exact nonzero.1
  · rintro ⟨_, ⟨emission, emitted, rfl⟩, field, inFields, nonzero⟩
    have term := SymInt.mem_terms_iff.2 ⟨nonzero, rfl⟩
    exact ⟨emission.1, emission, emitted, field, inFields, _, term,
      rfl, rfl⟩

end Items

/-- The field of an operand need not be a byte. -/
theorem Operation.checkedValues_of_encodeAddressed {opcode : Opcode}
    {width : Width} {operand : Option Operand} {right : Register}
    {code : Code}
    (encoded : encodeAddressed opcode width operand right = .ok code) :
    code.checkedValues = [] := by
  cases operand with
  | none => cases encoded
  | some operand =>
      cases encoded
      rw [Code.checkedValues, Operand.fields]
      cases operand.displacement? <;> simp

/-- The values of an operation to be checked are its symbolic bytes. -/
theorem Operation.checkedValues_of_encode {operation : Operation}
    {code : Code} (encoded : operation.encode = .ok code) (line : Int) :
    code.checkedValues.map (fun value => (line, value)) =
      Items.symbolicBytesOf (.instruction ⟨line, operation⟩) := by
  cases operation with
  | data values =>
      rw [encode] at encoded
      split at encoded
      · cases encoded
      · cases encoded
        simp [Code.checkedValues, Items.symbolicBytesOf,
          List.filter_map, Function.comp_def]
  | jump opcode width target =>
      cases encoded
      rfl
  | reversible pair width left right reversed =>
      rw [checkedValues_of_encodeAddressed encoded]
      rfl
  | unary opcode width operand =>
      rw [checkedValues_of_encodeAddressed encoded]
      rfl
  | nullary opcode width =>
      cases encoded
      rfl

theorem Items.checkedValues_eq {items : List Item}
    (encodes : ∀ content, Item.instruction content ∈ items →
      ∃ code, content.encode = .ok code) :
    checkedValues items = symbolicBytes items := by
  induction items with
  | nil => rfl
  | cons item rest inductionHypothesis =>
      have later := inductionHypothesis fun content member =>
        encodes content (List.mem_cons_of_mem _ member)
      rw [checkedValues] at later
      rw [symbolicBytes, List.flatMap_cons, ← symbolicBytes, ← later,
        checkedValues, emissions, List.filterMap_cons]
      cases item with
      | label line name => rfl
      | instruction content =>
          rcases encodes content List.mem_cons_self with ⟨code, encoded⟩
          have operationEncoded := Instruction.encode_eq_ok_iff.1 encoded
          simp only [Item.emission?, encoded, List.flatMap_cons]
          rw [Operation.checkedValues_of_encode operationEncoded]
          rfl

namespace LaidOut

variable {items : List Item} {layout : Layout}

/-- The first relocation without an address is that of a missing label. -/
theorem unresolved?_map (laidOut : LaidOut items layout) :
    layout.image.unresolved?.map
        (fun relocation => (relocation.line, relocation.symbol)) =
      (Items.references items).find? fun reference =>
        !Items.declares items reference.2 := by
  rw [Items.references_eq_segments, ← laidOut.map_relocations,
    List.find?_map, Image.unresolved?, ← Array.find?_toList]
  simp only [laidOut.contains_eq]
  rfl

/-- The addresses of a layout give values their final ones. -/
theorem weigh_eq_finalValue (laidOut : LaidOut items layout)
    {value : SymInt}
    (known : ∀ term ∈ value.terms,
      Items.declares items term.1 = true) :
    value.weigh (SymInt.addressWord layout.image.symbols) =
      Items.finalValue items value := by
  rw [Items.finalValue, SymInt.ofInt_exactly]
  apply SymInt.weigh_congr
  intro term member
  rw [SymInt.addressWord, laidOut.symbols, if_pos (known term member)]
  rfl

/-- Checks are made of final values, once all labels have addresses. -/
theorem failsCheck_eq (laidOut : LaidOut items layout)
    {check : ByteCheck}
    (known : ∀ term ∈ check.value.terms,
      Items.declares items term.1 = true) :
    layout.image.failsCheck check =
      !decide (IsByte (Items.finalValue items check.value)) := by
  have addressed : ∀ term ∈ check.value.terms,
      layout.image.symbols.contains term.1 = true := by
    intro term member
    rw [laidOut.contains_eq]
    exact known term member
  rw [Image.failsCheck, SymInt.resolve_eq_weigh addressed,
    laidOut.weigh_eq_finalValue known, Bool.eq_iff_iff, ← not_isByte_iff]
  simp

theorem declares_of_checked (laidOut : LaidOut items layout)
    (declared : ∀ reference ∈ Items.references items,
      Items.declares items reference.2 = true)
    {check : ByteCheck} (kept : check ∈ layout.image.checks.toList) :
    ∀ term ∈ check.value.terms,
      Items.declares items term.1 = true := by
  intro term inTerms
  have checked : (check.line, check.value) ∈
      layout.image.checkedValues :=
    List.mem_map.2 ⟨check, kept, rfl⟩
  rw [laidOut.checked] at checked
  rcases List.mem_flatMap.1 checked with ⟨emission, emitted, listed⟩
  rcases List.mem_map.1 listed with ⟨value, inValues, same⟩
  rcases List.mem_map.1 inValues with ⟨field, inFields, rfl⟩
  rw [← (Prod.mk.inj same).2] at inTerms
  apply declared (emission.1, term.1)
  apply List.mem_flatMap.2
  refine ⟨emission, emitted, List.mem_flatMap.2 ⟨field, ?_, ?_⟩⟩
  · exact (List.mem_filter.1 inFields).1
  · exact List.mem_map.2 ⟨term, inTerms, rfl⟩

/-- The first check that fails is that of the first symbolic byte. -/
theorem checks_map (laidOut : LaidOut items layout)
    (declared : ∀ reference ∈ Items.references items,
      Items.declares items reference.2 = true) :
    (layout.image.checks.find? layout.image.failsCheck).map
        (fun check => (check.line, check.value)) =
      (Items.symbolicBytes items).find? fun byte =>
        !decide (IsByte (Items.finalValue items byte.2)) := by
  have agree : ∀ check ∈ layout.image.checks.toList,
      layout.image.failsCheck check =
        !decide (IsByte (Items.finalValue items check.value)) := by
    intro check kept
    exact laidOut.failsCheck_eq (laidOut.declares_of_checked declared kept)
  rw [← Items.checkedValues_eq laidOut.encodes, ← laidOut.checked,
    Image.checkedValues, List.find?_map, ← Array.find?_toList]
  congr 1
  exact List.find?_congr agree

end LaidOut

namespace Items

/-- What goes wrong only after all items are laid out. -/
inductive LateFault (items : List Item) : Error → Prop where
  | missing {line : Int} {label : Text}
      (first : ((references items).find? fun reference =>
        !declares items reference.2) = some (line, label)) :
      LateFault items (.labelMissing line label)
  | range {line : Int} {value : SymInt}
      (declared : ∀ reference ∈ references items,
        declares items reference.2 = true)
      (first : ((symbolicBytes items).find? fun byte =>
        !decide (IsByte (finalValue items byte.2))) =
          some (line, value)) :
      LateFault items (.operand line (Text.ascii "data") .dataRange)

theorem find?_references_eq_none_iff {items : List Item} :
    ((references items).find? fun reference =>
        !declares items reference.2) = none ↔
      ∀ reference ∈ references items,
        declares items reference.2 = true := by
  simp [List.find?_eq_none]

end Items

namespace LaidOut

variable {items : List Item} {layout : Layout}

/-- Finishing a layout fails for the first late fault. -/
theorem finish_eq_error_iff (laidOut : LaidOut items layout)
    {error : Error} :
    layout.finish = .error error ↔ Items.LateFault items error := by
  have relocations := laidOut.unresolved?_map
  obtain ⟨data, patched, -⟩ := laidOut.madeOf.exists_patchAll laidOut.wide
  rw [Layout.finish, Image.applyRelocations, patched]
  cases unresolved : layout.image.unresolved? with
  | some relocation =>
      rw [unresolved] at relocations
      constructor
      · intro failed
        cases failed
        exact .missing relocations.symm
      · intro fault
        cases fault with
        | missing first =>
            cases relocations.trans first
            rfl
        | range declared =>
            have absent := Items.find?_references_eq_none_iff.2 declared
            cases relocations.trans absent
  | none =>
      rw [unresolved] at relocations
      have declared :=
        Items.find?_references_eq_none_iff.1 relocations.symm
      have checks := laidOut.checks_map declared
      cases failing :
          layout.image.checks.find? layout.image.failsCheck with
      | some check =>
          rw [failing] at checks
          constructor
          · intro failed
            cases failed
            exact .range declared checks.symm
          · intro fault
            cases fault with
            | missing first => cases relocations.trans first
            | range _ first =>
                cases checks.trans first
                rfl
      | none =>
          rw [failing] at checks
          constructor
          · intro failed
            cases failed
          · intro fault
            cases fault with
            | missing first => cases relocations.trans first
            | range _ first => cases checks.trans first

/-- A layout is finished if all labels are known and all bytes fit. -/
theorem finish_eq_ok_iff (laidOut : LaidOut items layout) :
    (∃ program, layout.finish = .ok program) ↔
      (∀ reference ∈ Items.references items,
        Items.declares items reference.2 = true) ∧
      ∀ byte ∈ Items.symbolicBytes items,
        IsByte (Items.finalValue items byte.2) := by
  have relocations := laidOut.unresolved?_map
  obtain ⟨data, patched, -⟩ := laidOut.madeOf.exists_patchAll laidOut.wide
  rw [Layout.exists_finish_iff]
  constructor
  · rintro ⟨resolved, passed, -⟩
    rw [resolved] at relocations
    have declared :=
      Items.find?_references_eq_none_iff.1 relocations.symm
    have checks := laidOut.checks_map declared
    rw [passed] at checks
    refine ⟨declared, fun byte member => ?_⟩
    have fits := List.find?_eq_none.1 checks.symm byte member
    simpa using fits
  · rintro ⟨declared, fits⟩
    rw [Items.find?_references_eq_none_iff.2 declared,
      Option.map_eq_none_iff] at relocations
    have checks := laidOut.checks_map declared
    have passed : ((Items.symbolicBytes items).find? fun byte =>
        !decide (IsByte (Items.finalValue items byte.2))) = none := by
      apply List.find?_eq_none.2
      intro byte member
      simpa using fits byte member
    rw [passed, Option.map_eq_none_iff] at checks
    exact ⟨relocations, checks, _, patched⟩

end LaidOut

/-! ## The outcome of an assembly -/

namespace Items

/-- What the items of a text have to satisfy to become a program. -/
structure Accepted (constants : Table Int64) (items : List Item) :
    Prop where
  /-- No label is declared twice or has the name of a constant. -/
  labels : ∀ front line name back,
    items = front ++ .label line name :: back →
      declares front name = false ∧ constants.contains name = false
  /-- Data that depends on no label is made of bytes. -/
  constantBytes : ∀ line values,
    .instruction ⟨line, .data values⟩ ∈ items →
      ∀ value ∈ values, value.isConstant = true → IsByte value.base
  /-- Every label that counts in some field is declared somewhere. -/
  declared : ∀ code ∈ codes items, ∀ field ∈ code.fields, ∀ label,
    field.value.coefficient label ≠ 0 → declares items label = true
  /-- Data that depends on labels comes out as bytes. -/
  symbolicBytes : ∀ line values,
    .instruction ⟨line, .data values⟩ ∈ items →
      ∀ value ∈ values, value.isConstant = false →
        IsByte (finalValue items value)

/-- The error that is reported, where `fault` is that of the parser. -/
inductive Reported (constants : Table Int64) (items : List Item)
    (fault : Option Error) : Error → Prop where
  | early {error : Error} (first : FirstFault constants items error) :
      Reported constants items fault error
  | stopped {error : Error} (sound : Sound constants items)
      (stopped : fault = some error) :
      Reported constants items fault error
  | late {error : Error} (sound : Sound constants items)
      (ended : fault = none) (late : LateFault items error) :
      Reported constants items fault error

theorem mem_symbolicBytes_iff {items : List Item} {value : SymInt} :
    (∃ line, (line, value) ∈ symbolicBytes items) ↔
      ∃ line values, .instruction ⟨line, .data values⟩ ∈ items ∧
        value ∈ values ∧ value.isConstant = false := by
  simp only [symbolicBytes, List.mem_flatMap]
  constructor
  · rintro ⟨line, item, inItems, listed⟩
    unfold symbolicBytesOf at listed
    split at listed
    · next statementLine values =>
      rcases List.mem_map.1 listed with ⟨found, kept, same⟩
      rcases List.mem_filter.1 kept with ⟨inValues, symbolic⟩
      rw [(Prod.mk.inj same).2] at inValues symbolic
      exact ⟨statementLine, values, inItems, inValues, by
        simpa using symbolic⟩
    · cases listed
  · rintro ⟨line, values, inItems, inValues, symbolic⟩
    refine ⟨line, _, inItems, List.mem_map.2 ⟨value, ?_, rfl⟩⟩
    exact List.mem_filter.2 ⟨inValues, by simp [symbolic]⟩

theorem sound_iff {constants : Table Int64} {items : List Item} :
    Sound constants items ↔
      (∀ front line name back,
        items = front ++ .label line name :: back →
          declares front name = false ∧
            constants.contains name = false) ∧
      ∀ line values, .instruction ⟨line, .data values⟩ ∈ items →
        ∀ value ∈ values, value.isConstant = true →
          IsByte value.base := by
  constructor
  · intro sound
    constructor
    · intro front line name back split
      rw [← Bool.not_eq_true, ← Bool.not_eq_true, ← not_or]
      intro taken
      exact sound front _ back _ split (.duplicate taken)
    · intro line values member value inValues fixed
      rcases List.append_of_mem member with ⟨front, back, split⟩
      by_contra outside
      exact sound front _ back _ split (.range inValues fixed outside)
  · rintro ⟨labels, bytes⟩ front item back error split fault
    cases fault with
    | @duplicate line name taken =>
        have free := labels front line name back split
        rw [free.1, free.2] at taken
        simp at taken
    | @range line values value inValues fixed outside =>
        have member : Item.instruction ⟨line, .data values⟩ ∈ items := by
          rw [split]
          simp
        exact outside (bytes line values member value inValues fixed)

theorem accepted_iff {constants : Table Int64} {items : List Item} :
    Accepted constants items ↔
      Sound constants items ∧
        (∀ reference ∈ references items,
          declares items reference.2 = true) ∧
        ∀ byte ∈ Items.symbolicBytes items,
          IsByte (finalValue items byte.2) := by
  constructor
  · intro accepted
    refine ⟨sound_iff.2 ⟨accepted.labels, accepted.constantBytes⟩,
      ?_, ?_⟩
    · rintro ⟨line, label⟩ member
      rcases mem_references_iff.1 ⟨line, member⟩ with
        ⟨code, inCodes, field, inFields, nonzero⟩
      exact accepted.declared code inCodes field inFields label nonzero
    · rintro ⟨line, value⟩ member
      rcases mem_symbolicBytes_iff.1 ⟨line, member⟩ with
        ⟨statementLine, values, inItems, inValues, symbolic⟩
      exact accepted.symbolicBytes statementLine values inItems value
        inValues symbolic
  · rintro ⟨sound, declared, bytes⟩
    rcases sound_iff.1 sound with ⟨labels, constantBytes⟩
    refine ⟨labels, constantBytes, ?_, ?_⟩
    · intro code inCodes field inFields label nonzero
      have referenced : ∃ line, (line, label) ∈ references items :=
        mem_references_iff.2 ⟨code, inCodes, field, inFields, nonzero⟩
      rcases referenced with ⟨line, member⟩
      exact declared (line, label) member
    · intro line values inItems value inValues symbolic
      have listed : ∃ line, (line, value) ∈ symbolicBytes items :=
        mem_symbolicBytes_iff.2
          ⟨line, values, inItems, inValues, symbolic⟩
      rcases listed with ⟨listedLine, member⟩
      exact bytes (listedLine, value) member

end Items

namespace Assembler

/-- The items of a program are accepted. -/
theorem accepted_of_assembleWith {language : FormulaLanguage}
    {assembler : Assembler} {text : Text} {program : Program}
    {items : List Item} {fault : Option Error}
    (assembled :
      assembler.assembleWith language (.ok text) = .ok program)
    (delivered :
      (assembler.parser language text).Delivers items fault) :
    Items.Accepted assembler.constants items := by
  have supported := supported_of_assembleWith assembled
  rcases laidOut_of_assembleWith assembled delivered with
    ⟨-, layout, placed, laidOut, finished⟩
  have sound := (Layout.ofItems_eq_ok_iff supported
    delivered.ofMachine).1 ⟨layout, placed⟩
  exact Items.accepted_iff.2
    ⟨sound, laidOut.finish_eq_ok_iff.1 ⟨program, finished⟩⟩

/--
Assembling a text succeeds exactly if its items are accepted, and otherwise
reports exactly one error.

A label that is subtracted as often as it is added has coefficient zero, so
it need not be declared.
-/
theorem assembleWith_outcome {language : FormulaLanguage}
    {assembler : Assembler} {text : Text} {items : List Item}
    {fault : Option Error}
    (supported : assembler.defaultWidth.isSupported = true)
    (delivered :
      (assembler.parser language text).Delivers items fault) :
    ((∃ program,
        assembler.assembleWith language (.ok text) = .ok program) ↔
      fault = none ∧ Items.Accepted assembler.constants items) ∧
    ∀ error,
      assembler.assembleWith language (.ok text) = .error error ↔
        Items.Reported assembler.constants items fault error := by
  have ofMachine := delivered.ofMachine
  have accepted := @Layout.ofItems_eq_ok_iff _ assembler.constants _
    supported ofMachine
  have rejected := fun error => @Layout.ofItems_eq_error_iff _
    assembler.constants _ supported ofMachine error
  rw [assembleWith_eq supported delivered, assembleParsed,
    Items.accepted_iff]
  cases placed : Layout.ofItems assembler.constants items with
  | error first =>
      have unsound : ¬ Items.Sound assembler.constants items := by
        rw [← accepted, placed]
        simp
      have onlyFirst := fun error => rejected error
      simp only [placed, Except.error.injEq] at onlyFirst
      constructor
      · simp [unsound]
      · intro error
        rw [Except.error.injEq, onlyFirst]
        constructor
        · exact .early
        · intro reported
          cases reported with
          | early first => exact first
          | stopped sound => exact absurd sound unsound
          | late sound => exact absurd sound unsound
  | ok layout =>
      have laidOut := LaidOut.ofItems supported ofMachine placed
      have sound : Items.Sound assembler.constants items :=
        accepted.1 ⟨layout, placed⟩
      have noFault : ∀ error,
          ¬ Items.FirstFault assembler.constants items error := by
        intro error
        rw [← rejected, placed]
        simp
      cases fault with
      | some fault =>
          constructor
          · simp
          · intro error
            rw [Except.error.injEq]
            constructor
            · rintro rfl
              exact .stopped sound rfl
            · intro reported
              cases reported with
              | early first => exact absurd first (noFault error)
              | stopped _ same => exact Option.some.inj same
              | late _ ended => cases ended
      | none =>
          constructor
          · rw [laidOut.finish_eq_ok_iff]
            simp [sound]
          · intro error
            rw [laidOut.finish_eq_error_iff]
            constructor
            · exact .late sound rfl
            · intro reported
              cases reported with
              | early first => exact absurd first (noFault error)
              | stopped _ same => cases same
              | late _ _ late => exact late

/-- A byte out of range, a label that cancels, and one that is missing. -/
def severalFaults : Text :=
  Text.ascii "data b - 300\ndata a - a\njmp a + a\n.b"

/-- The missing label is reported, although a byte before it is too small. -/
theorem severalFaults_outcome :
    ∃ items,
      (initial.parser noFormulas severalFaults).Delivers items none ∧
      initial.assembleWith noFormulas (.ok severalFaults) =
        .error (.labelMissing 3 (Text.ascii "a")) ∧
      Items.Reported initial.constants items none
        (.labelMissing 3 (Text.ascii "a")) := by
  have delivered := initial.parser_delivers noFormulas severalFaults
  have ended : (initial.parsed noFormulas severalFaults).fault = none := by
    decide +kernel
  rw [ended] at delivered
  have evaluated :
      (Except.tryCatch
        ((initial.assembleWith noFormulas (.ok severalFaults)).map
          fun _ => none)
        (fun fault => .ok (some fault))).toOption =
        some (some (.labelMissing 3 (Text.ascii "a"))) := by
    decide +kernel
  have failed : initial.assembleWith noFormulas (.ok severalFaults) =
      .error (.labelMissing 3 (Text.ascii "a")) := by
    cases result :
        initial.assembleWith noFormulas (.ok severalFaults) with
    | ok program =>
        rw [result] at evaluated
        cases evaluated
    | error fault =>
        rw [result] at evaluated
        exact congrArg _ (Option.some.inj (Option.some.inj evaluated))
  have outcome := assembleWith_outcome (by decide) delivered
  exact ⟨_, delivered, failed, (outcome.2 _).1 failed⟩

end Assembler

end FlatAsm
