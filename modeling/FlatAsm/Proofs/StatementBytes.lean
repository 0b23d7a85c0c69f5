import FlatAsm.Proofs.StatementTiling

/-!
# The bytes of a statement

The statements of a program are the instructions of its text, in order, each
with its code.  The slice of the image that belongs to a statement holds this
code, with the addresses of labels filled in.
-/

namespace FlatAsm

/-- The instruction of an item, if it has one. -/
def Item.instruction? : Item → Option Instruction
  | .label _ _ => none
  | .instruction content => some content

/-- The statement has been made of its instruction. -/
structure Statement.IsEncoded (statement : Statement) : Prop where
  line_eq : statement.line = statement.instruction.line
  code_eq : statement.instruction.encode = .ok statement.code

/-- The statements of a layout have been made of these items. -/
structure Layout.Lists (layout : Layout) (items : List Item) : Prop where
  instructions : layout.statements.toList.map Statement.instruction =
    items.filterMap Item.instruction?
  encoded : ∀ statement ∈ layout.statements.toList, statement.IsEncoded
  codes : layout.statements.toList.map Statement.code = Items.codes items

namespace Layout.Lists

variable {constants : Table Int64} {layout longer : Layout}
  {items : List Item}

theorem declare {line : Int} {name : Text} (lists : layout.Lists items)
    (placed : layout.declare constants line name = .ok longer) :
    longer.Lists (items ++ [.label line name]) := by
  unfold Layout.declare at placed
  split at placed
  · cases placed
  · cases placed
    refine ⟨?_, lists.encoded, ?_⟩
    · have none : [Item.label line name].filterMap Item.instruction? = [] :=
        rfl
      rw [List.filterMap_append, none, List.append_nil]
      exact lists.instructions
    · simpa [Items.codes, Items.emissions_append] using lists.codes

theorem append {content : Instruction} (lists : layout.Lists items)
    (placed : layout.append content = .ok longer) :
    longer.Lists (items ++ [.instruction content]) := by
  obtain ⟨code, image, encoded, -, rfl⟩ :=
    Layout.append_eq_ok_iff.1 placed
  refine ⟨?_, ?_, ?_⟩
  · rw [Array.toList_push, List.map_append, lists.instructions,
      List.filterMap_append]
    rfl
  · rw [Array.toList_push]
    refine List.forall_mem_append.2 ⟨lists.encoded, ?_⟩
    exact List.forall_mem_singleton.2 ⟨rfl, encoded⟩
  · rw [Array.toList_push, List.map_append, lists.codes, Items.codes,
      Items.codes, Items.emissions_append,
      Items.emissions_instruction encoded, List.map_append]
    rfl

theorem ofItems (placed : Layout.ofItems constants items = .ok layout) :
    layout.Lists items := by
  induction items using List.reverseRecOn generalizing layout with
  | nil =>
      cases placed
      exact ⟨rfl, List.forall_mem_nil _, rfl⟩
  | append_singleton items item inductionHypothesis =>
      rw [Layout.ofItems_concat] at placed
      obtain ⟨before, earlier, last⟩ := bind_eq_ok_iff.1 placed
      have lists := inductionHypothesis earlier
      cases item with
      | label line name => exact lists.declare last
      | instruction content => exact lists.append last

end Layout.Lists

/-! ## Slices of the image -/

theorem Code.length_finished {code : Code} (addresses : Table Int)
    (supported : ∀ field ∈ code.fields,
      field.width.isSupported = true) :
    ((code.finished addresses).length : Int) = code.size := by
  rw [← Code.render_segments addresses 0 supported,
    Segment.length_flatMap_render, ← Code.size_eq_segments 0 supported]

/-- If pieces of the right sizes make up the data, they are its slices. -/
theorem Tiles.extract_eq {start stop : Int} {statements : List Statement}
    {data : Array UInt8} {piece : Statement → List UInt8}
    (tiles : Tiles start statements stop) (positive : 0 ≤ start)
    (sized : ∀ statement ∈ statements,
      ((piece statement).length : Int) = statement.code.size)
    (whole : data.toList.drop start.toNat = statements.flatMap piece) :
    ∀ statement ∈ statements,
      (data.extract statement.offset statement.endOffset.toNat).toList =
        piece statement := by
  induction tiles with
  | nil => simp
  | @cons start stop statement rest placed _ _ inductionHypothesis =>
      obtain ⟨size, sized⟩ := List.forall_mem_cons.1 sized
      rw [List.flatMap_cons] at whole
      have first : statement.offset = start.toNat := by omega
      have length : statement.endOffset.toNat - statement.offset =
          (piece statement).length := by
        rw [Statement.endOffset]
        omega
      refine List.forall_mem_cons.2 ⟨?_, inductionHypothesis ?_ sized ?_⟩
      · rw [Array.toList_extract, List.extract_eq_take_drop, length, first,
          whole, List.take_left]
      · omega
      · have next : (start + statement.code.size).toNat =
            start.toNat + (piece statement).length := by omega
        rw [next, ← List.drop_drop, whole, List.drop_left]

namespace Assembler

variable {language : FormulaLanguage} {assembler : Assembler} {text : Text}
  {program : Program} {items : List Item} {fault : Option Error}

/-- The statements of a program are the instructions of its text. -/
theorem statements_of_assembleWith
    (assembled :
      assembler.assembleWith language (.ok text) = .ok program)
    (delivered :
      (assembler.parser language text).Delivers items fault) :
    program.statements.map Statement.instruction =
        items.filterMap Item.instruction? ∧
      ∀ statement ∈ program.statements, statement.IsEncoded := by
  obtain ⟨-, layout, placed, -, finished⟩ :=
    laidOut_of_assembleWith assembled delivered
  obtain ⟨-, -, _, -, rfl⟩ := Layout.finish_eq_ok_iff.1 finished
  have lists := Layout.Lists.ofItems placed
  exact ⟨lists.instructions, lists.encoded⟩

/-- The instruction of a statement is one of the text. -/
theorem exists_statement_iff
    (assembled :
      assembler.assembleWith language (.ok text) = .ok program)
    (delivered :
      (assembler.parser language text).Delivers items fault)
    {instruction : Instruction} :
    (∃ statement ∈ program.statements,
        statement.instruction = instruction) ↔
      .instruction instruction ∈ items := by
  rw [← List.mem_map, (statements_of_assembleWith assembled delivered).1,
    List.mem_filterMap]
  constructor
  · rintro ⟨_ | content, member, same⟩
    · cases same
    · cases same
      exact member
  · exact fun member => ⟨_, member, rfl⟩

/-- The slice of a statement is its code under the final addresses. -/
theorem bytesOf_of_assembleWith
    (assembled :
      assembler.assembleWith language (.ok text) = .ok program) :
    ∀ statement ∈ program.statements,
      program.bytesOf statement =
        statement.code.finished program.symbols := by
  have delivered := assembler.parser_delivers language text
  have supported := supported_of_assembleWith assembled
  obtain ⟨-, layout, placed, laidOut, finished⟩ :=
    laidOut_of_assembleWith assembled delivered
  have tiled := Layout.Tiled.ofItems supported delivered.ofMachine placed
  have lists := Layout.Lists.ofItems placed
  obtain ⟨-, -, image, patched, rfl⟩ :=
    Layout.finish_eq_ok_iff.1 finished
  refine tiled.statements.extract_eq (Int.le_refl 0) ?_ ?_
  · intro statement member
    have listed : statement.code ∈
        Items.codes (assembler.parsed language text).items := by
      rw [← lists.codes]
      exact List.mem_map.2 ⟨statement, member, rfl⟩
    obtain ⟨emission, inEmissions, same⟩ := List.mem_map.1 listed
    rw [← same]
    exact Code.length_finished _ (Items.codes_supported supported
      delivered.ofMachine emission inEmissions)
  · have bytes := Items.render_segments layout.image.symbols supported
      delivered.ofMachine
    rw [Int.toNat_zero, List.drop_zero, laidOut.madeOf.toList_patchAll patched]
    refine bytes.trans ?_
    rw [← lists.codes, List.flatMap_map]

end Assembler

end FlatAsm
