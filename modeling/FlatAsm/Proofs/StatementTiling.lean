import FlatAsm.Proofs.TwoPass
import Mathlib.Data.List.Pairwise

/-!
# Statements tile the image

The statements of a program follow one another without gaps, from offset 0
to the end of the image.  So every offset of the image belongs to the code
of exactly one statement, which is the one that looking it up finds, and the
listing cuts the image into consecutive slices.

Labels stand between statements: each of them is the offset of a statement
or the end of the image.
-/

namespace FlatAsm

theorem Statement.covers_iff {statement : Statement} {offset : Int} :
    statement.covers offset = true ↔
      statement.offset ≤ offset ∧
        offset < statement.offset + statement.code.size := by
  rw [covers, endOffset, Bool.and_eq_true, decide_eq_true_iff,
    decide_eq_true_iff]

/--
The statements follow one another from one offset to another.

A statement may be empty, and then the next one has the same offset.
-/
inductive Tiles : Int → List Statement → Int → Prop where
  | nil (offset : Int) : Tiles offset [] offset
  | cons {start stop : Int} {statement : Statement}
      {rest : List Statement} (placed : statement.offset = start)
      (sized : 0 ≤ statement.code.size)
      (others : Tiles (start + statement.code.size) rest stop) :
      Tiles start (statement :: rest) stop

namespace Tiles

variable {start middle stop offset : Int} {statements : List Statement}

theorem append {others : List Statement}
    (first : Tiles start statements middle)
    (second : Tiles middle others stop) :
    Tiles start (statements ++ others) stop := by
  induction first with
  | nil => exact second
  | cons placed sized _ inductionHypothesis =>
      exact .cons placed sized (inductionHypothesis second)

theorem exists_of_append {others : List Statement}
    (tiles : Tiles start (statements ++ others) stop) :
    ∃ middle, Tiles start statements middle ∧
      Tiles middle others stop := by
  induction statements generalizing start with
  | nil => exact ⟨start, .nil start, tiles⟩
  | cons statement rest inductionHypothesis =>
      cases tiles with
      | cons placed sized later =>
          obtain ⟨middle, inner, outer⟩ := inductionHypothesis later
          exact ⟨middle, .cons placed sized inner, outer⟩

theorem stop_unique {other : Int} (tiles : Tiles start statements stop)
    (again : Tiles start statements other) : stop = other := by
  induction tiles with
  | nil =>
      cases again
      rfl
  | cons _ _ _ inductionHypothesis =>
      cases again with
      | cons _ _ others => exact inductionHypothesis others

theorem start_le_stop (tiles : Tiles start statements stop) :
    start ≤ stop := by
  induction tiles with
  | nil => exact Int.le_refl _
  | cons _ sized _ inductionHypothesis => omega

/-- A statement stays between the two ends. -/
theorem bounds (tiles : Tiles start statements stop) {statement : Statement}
    (member : statement ∈ statements) :
    start ≤ statement.offset ∧
      (statement.offset : Int) ≤ statement.endOffset ∧
      statement.endOffset ≤ stop := by
  induction tiles with
  | nil => cases member
  | cons placed sized others inductionHypothesis =>
      have further := others.start_le_stop
      rcases List.mem_cons.1 member with rfl | later
      · simp only [Statement.endOffset]
        omega
      · have bounded := inductionHypothesis later
        omega

/-- A later statement starts where or after an earlier one has ended. -/
theorem ordered (tiles : Tiles start statements stop) :
    statements.Pairwise fun earlier later =>
      earlier.endOffset ≤ later.offset := by
  induction tiles with
  | nil => exact List.Pairwise.nil
  | cons placed sized others inductionHypothesis =>
      refine List.pairwise_cons.2 ⟨?_, inductionHypothesis⟩
      intro later member
      rw [Statement.endOffset, placed]
      exact (others.bounds member).1

/-- Every offset between the two ends belongs to a statement. -/
theorem exists_covers (tiles : Tiles start statements stop)
    (above : start ≤ offset) (below : offset < stop) :
    ∃ statement ∈ statements, statement.covers offset = true := by
  induction tiles with
  | nil => omega
  | @cons start stop statement rest placed sized others
      inductionHypothesis =>
      by_cases here : offset < start + statement.code.size
      · refine ⟨statement, List.mem_cons_self, ?_⟩
        exact Statement.covers_iff.2 (by omega)
      · obtain ⟨later, member, covers⟩ :=
          inductionHypothesis (by omega) below
        exact ⟨later, List.mem_cons_of_mem _ member, covers⟩

/-- The slices of consecutive statements make up what they span. -/
theorem flatMap_extract (data : Array UInt8)
    (tiles : Tiles start statements stop) (positive : 0 ≤ start) :
    (statements.flatMap fun statement =>
        (data.extract statement.offset statement.endOffset.toNat).toList) =
      (data.extract start.toNat stop.toNat).toList := by
  induction tiles with
  | nil => simp
  | cons placed sized others inductionHypothesis =>
      have further := others.start_le_stop
      rw [List.flatMap_cons, inductionHypothesis (by omega),
        ← Array.toList_append, Statement.endOffset, placed,
        Array.extract_append_extract]
      congr 2 <;> omega

end Tiles

/-! ## Layouts -/

/-- The offset stands between two statements, or at an end of them. -/
def IsBoundary (statements : List Statement) (offset : Int) : Prop :=
  ∃ before after, statements = before ++ after ∧ Tiles 0 before offset

namespace Layout

/-- The statements make up the image, and labels stand between them. -/
structure Tiled (layout : Layout) : Prop where
  statements : Tiles 0 layout.statements.toList layout.image.offset
  symbols : ∀ name address,
    layout.image.symbols.find? name = some address →
      IsBoundary layout.statements.toList address

theorem Tiled.empty : Tiled Layout.empty where
  statements := .nil 0
  symbols := by simp [Layout.empty, Image.empty]

/-- An image grows by the size of the code. -/
theorem offset_of_emit {image after : Image} {segments : List Segment}
    {code : Code} {line : Int} (madeOf : image.MadeOf segments)
    (emitted : image.emit code line = .ok after)
    (supported : ∀ field ∈ code.fields, field.width.isSupported = true) :
    (after.offset : Int) = image.offset + code.size := by
  rw [(madeOf.emit emitted).offset_eq, madeOf.offset_eq,
    Code.size_eq_segments line supported, List.map_append, List.sum_append]
  omega

theorem Tiled.declare {constants : Table Int64} {layout longer : Layout}
    {line : Int} {name : Text} (tiled : layout.Tiled)
    (placed : layout.declare constants line name = .ok longer) :
    longer.Tiled := by
  unfold Layout.declare at placed
  split at placed
  · cases placed
  · cases placed
    refine ⟨tiled.statements, ?_⟩
    intro other address found
    rw [Image.define, Table.find?_insert] at found
    split at found
    · cases found
      exact ⟨_, [], (List.append_nil _).symm, tiled.statements⟩
    · exact tiled.symbols other address found

theorem Tiled.append {default : Width} {items : List Item}
    {layout longer : Layout} {content : Instruction}
    (supported : default.isSupported = true)
    (ofMachine : content.operation.OfMachine default)
    (laidOut : LaidOut items layout) (tiled : layout.Tiled)
    (placed : layout.append content = .ok longer) :
    longer.Tiled := by
  obtain ⟨code, image, encoded, emitted, rfl⟩ :=
    Layout.append_eq_ok_iff.1 placed
  have widths := Operation.encode_supported supported ofMachine
    (Instruction.encode_eq_ok_iff.1 encoded)
  have grown := offset_of_emit laidOut.madeOf emitted widths
  have sized : 0 ≤ code.size := by
    rw [Code.size_eq_segments content.line widths]
    omega
  constructor
  · rw [Array.toList_push, grown]
    exact tiled.statements.append
      (.cons rfl sized (.nil _))
  · intro name address found
    rw [Image.symbols_emit emitted] at found
    obtain ⟨before, after, split, tiles⟩ :=
      tiled.symbols name address found
    rw [Array.toList_push, split, List.append_assoc]
    exact ⟨before, _, rfl, tiles⟩

theorem Tiled.ofItems {default : Width} {constants : Table Int64}
    {items : List Item} {layout : Layout}
    (supported : default.isSupported = true)
    (ofMachine : ∀ item ∈ items, item.OfMachine default)
    (placed : Layout.ofItems constants items = .ok layout) :
    layout.Tiled := by
  induction items using List.reverseRecOn generalizing layout with
  | nil =>
      cases placed
      exact Tiled.empty
  | append_singleton items item inductionHypothesis =>
      rw [Layout.ofItems_concat] at placed
      obtain ⟨before, earlier, last⟩ := bind_eq_ok_iff.1 placed
      have others : ∀ other ∈ items, other.OfMachine default :=
        fun other member => ofMachine other (by simp [member])
      have tiled := inductionHypothesis others earlier
      have laidOut := LaidOut.ofItems supported others earlier
      cases item with
      | label line name => exact tiled.declare last
      | instruction content =>
          have ofMachine := ofMachine (.instruction content) (by simp)
          exact tiled.append supported ofMachine laidOut last

end Layout

/-! ## Programs -/

namespace Program

/--
Statements, labels, listing and look-up of a program fit its image.
-/
structure FitsImage (program : Program) : Prop where
  /-- The statements follow one another from 0 to the end of the image. -/
  tiles : Tiles 0 program.statements program.binary.size
  /-- Every label lies in the image, between two statements. -/
  symbols : ∀ name address, program.symbols.find? name = some address →
    0 ≤ address ∧ address ≤ program.binary.size ∧
      ((∃ statement ∈ program.statements, address = statement.offset) ∨
        address = program.binary.size)
  /-- The listing has all statements in order. -/
  listed : program.listing.map Prod.fst = program.statements
  /-- Each slice of the listing lies in the image. -/
  slices : ∀ statement bytes, (statement, bytes) ∈ program.listing →
    (statement.offset : Int) ≤ statement.endOffset ∧
      statement.endOffset ≤ program.binary.size ∧
      (bytes.length : Int) = statement.code.size
  /-- The slices of the listing make up the image. -/
  listing : program.listing.flatMap Prod.snd = program.binary.toList
  /-- Something is found at the offsets of the image and nowhere else. -/
  found : ∀ offset, (program.positionAt? offset).isSome = true ↔
    0 ≤ offset ∧ offset < program.binary.size
  /-- What is found is a statement whose code covers the offset. -/
  position : ∀ offset statement index,
    program.positionAt? offset = some ⟨statement, index⟩ ↔
      statement ∈ program.statements ∧ statement.offset ≤ offset ∧
        offset < statement.offset + statement.code.size ∧
        index = offset - statement.offset
  /-- No two statements cover the same offset. -/
  unique : program.statements.Pairwise fun earlier later =>
    ∀ offset, ¬(earlier.covers offset = true ∧ later.covers offset = true)

end Program

namespace Tiles

variable {statements : List Statement} {stop offset : Int}

theorem disjoint {start : Int} (tiles : Tiles start statements stop) :
    statements.Pairwise fun earlier later => ∀ offset,
      ¬(earlier.covers offset = true ∧ later.covers offset = true) := by
  refine tiles.ordered.imp ?_
  rintro earlier later ordered offset ⟨first, second⟩
  rw [Statement.covers_iff] at first second
  rw [Statement.endOffset] at ordered
  omega

/-- Only one statement covers an offset. -/
theorem eq_of_covers {start : Int} (tiles : Tiles start statements stop)
    {statement other : Statement} (member : statement ∈ statements)
    (otherMember : other ∈ statements)
    (covers : statement.covers offset = true)
    (otherCovers : other.covers offset = true) : statement = other := by
  by_contra different
  have symmetric : Std.Symm fun first second : Statement => ∀ offset,
      ¬(first.covers offset = true ∧ second.covers offset = true) :=
    ⟨fun _ _ apart offset both => apart offset both.symm⟩
  exact tiles.disjoint.forall member otherMember different offset
    ⟨covers, otherCovers⟩

/-- A boundary is the offset of a statement or the end of them all. -/
theorem of_isBoundary (tiles : Tiles 0 statements stop)
    (boundary : IsBoundary statements offset) :
    0 ≤ offset ∧ offset ≤ stop ∧
      ((∃ statement ∈ statements, offset = statement.offset) ∨
        offset = stop) := by
  obtain ⟨before, after, rfl, first⟩ := boundary
  obtain ⟨middle, again, second⟩ := tiles.exists_of_append
  cases first.stop_unique again
  refine ⟨first.start_le_stop, second.start_le_stop, ?_⟩
  cases second with
  | nil => exact .inr rfl
  | cons placed =>
      exact .inl ⟨_, List.mem_append_right _ List.mem_cons_self,
        placed.symm⟩

end Tiles

namespace Program

variable {program : Program}

theorem position_iff
    (tiles : Tiles 0 program.statements program.binary.size)
    {offset : Int} {statement : Statement} {index : Int} :
    program.positionAt? offset = some ⟨statement, index⟩ ↔
      statement ∈ program.statements ∧ statement.offset ≤ offset ∧
        offset < statement.offset + statement.code.size ∧
        index = offset - statement.offset := by
  rw [positionAt?, Option.map_eq_some_iff]
  constructor
  · rintro ⟨found, first, ⟨⟩⟩
    have covers := List.find?_some first
    obtain ⟨above, below⟩ := Statement.covers_iff.1 covers
    exact ⟨List.mem_of_find?_eq_some first, above, below, rfl⟩
  · rintro ⟨member, above, below, rfl⟩
    have covers := Statement.covers_iff.2 ⟨above, below⟩
    refine ⟨statement, ?_, rfl⟩
    cases first : program.statements.find? (·.covers offset) with
    | none => exact absurd covers (List.find?_eq_none.1 first _ member)
    | some other =>
        have otherCovers := List.find?_some first
        rw [tiles.eq_of_covers member (List.mem_of_find?_eq_some first)
          covers otherCovers]

theorem isSome_positionAt?_iff
    (tiles : Tiles 0 program.statements program.binary.size)
    {offset : Int} :
    (program.positionAt? offset).isSome = true ↔
      0 ≤ offset ∧ offset < program.binary.size := by
  rw [positionAt?, Option.isSome_map, List.find?_isSome]
  constructor
  · rintro ⟨statement, member, covers⟩
    rw [Statement.covers_iff] at covers
    have bounded := tiles.bounds member
    rw [Statement.endOffset] at bounded
    omega
  · rintro ⟨above, below⟩
    exact tiles.exists_covers above below

theorem length_bytesOf
    (tiles : Tiles 0 program.statements program.binary.size)
    {statement : Statement} (member : statement ∈ program.statements) :
    ((program.bytesOf statement).length : Int) = statement.code.size := by
  have bounded := tiles.bounds member
  rw [bytesOf, Array.length_toList, Array.size_extract]
  rw [Statement.endOffset] at bounded ⊢
  omega

theorem FitsImage.of_tiles
    (tiles : Tiles 0 program.statements program.binary.size)
    (boundaries : ∀ name address,
      program.symbols.find? name = some address →
        IsBoundary program.statements address) :
    program.FitsImage where
  tiles := tiles
  symbols name address found :=
    tiles.of_isBoundary (boundaries name address found)
  listed := by simp [Program.listing, Function.comp_def]
  slices := by
    intro statement bytes listed
    obtain ⟨_, member, ⟨⟩⟩ := List.mem_map.1 listed
    have bounded := tiles.bounds member
    exact ⟨bounded.2.1, bounded.2.2, length_bytesOf tiles member⟩
  listing := by
    rw [Program.listing, List.flatMap_map]
    have whole := tiles.flatMap_extract program.binary (Int.le_refl 0)
    simpa [bytesOf] using whole
  found offset := isSome_positionAt?_iff tiles
  position offset statement index := position_iff tiles
  unique := tiles.disjoint

end Program

namespace Image

/-- Patching changes bytes, and not how many there are. -/
theorem MadeOf.size_patchAll {image after : Image}
    {segments : List Segment} (madeOf : image.MadeOf segments)
    (patched : image.patchAll = .ok after) :
    after.data.size = image.offset := by
  rw [← Array.length_toList, madeOf.toList_patchAll patched,
    Segment.length_flatMap_render, madeOf.offset_eq]

end Image

namespace Assembler

/--
The statements of an assembled program tile its image, labels stand between
them, and both listing and look-up by offset agree with that.
-/
theorem assembleWith_fitsImage {language : FormulaLanguage}
    {assembler : Assembler} {source : Except Text Text} {program : Program}
    (assembled : assembler.assembleWith language source = .ok program) :
    program.FitsImage := by
  have supported := supported_of_assembleWith assembled
  cases source with
  | error reason => simp [assembleWith, supported] at assembled
  | ok text =>
      have delivered := assembler.parser_delivers language text
      obtain ⟨-, layout, placed, laidOut, finished⟩ :=
        laidOut_of_assembleWith assembled delivered
      have tiled := Layout.Tiled.ofItems supported delivered.ofMachine placed
      obtain ⟨-, -, image, patched, rfl⟩ :=
        Layout.finish_eq_ok_iff.1 finished
      refine .of_tiles ?_ tiled.symbols
      rw [laidOut.madeOf.size_patchAll patched]
      exact tiled.statements

/-- Two empty statements, each at the offset of the one after it. -/
def emptyStatements : Text :=
  Text.ascii "data \"\"\n.here\njmp end\ndata \"\"\ntimes 2, 7\n.end"

/-- Looking offset 2 up finds the statement that is not empty. -/
theorem emptyStatements_fitsImage :
    ∃ program,
      initial.assembleWith noFormulas (.ok emptyStatements) =
          .ok program ∧
        program.FitsImage ∧
        program.binary = #[8, 4, 7, 7] ∧
        program.statements.map Statement.offset = [0, 0, 2, 2] ∧
        (program.positionAt? 2).map
            (fun position => (position.statement.line, position.index)) =
          some (5, 0) := by
  have evaluated :
      ((initial.assembleWith noFormulas (.ok emptyStatements)).map
        fun program =>
          (program.binary, program.statements.map Statement.offset,
            (program.positionAt? 2).map fun position =>
              (position.statement.line, position.index))).toOption =
        some (#[8, 4, 7, 7], [0, 0, 2, 2], some (5, 0)) := by
    decide +kernel
  cases assembled :
      initial.assembleWith noFormulas (.ok emptyStatements) with
  | error fault =>
      rw [assembled] at evaluated
      cases evaluated
  | ok program =>
      rw [assembled] at evaluated
      have equal := Option.some.inj evaluated
      simp only [Prod.mk.injEq] at equal
      exact ⟨program, rfl, assembleWith_fitsImage assembled, equal⟩

end Assembler

end FlatAsm
