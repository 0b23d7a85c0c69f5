import FlatAsm.Proofs.LineComposition
import FlatAsm.Proofs.TwoPass

/-!
# Appending code to a program

A text can go on after whole lines.  What has been assembled from the lines
is then still there, at the front of everything: statements keep their
places and labels their addresses.  Fields that depend on labels keep their
values too, since all their labels are declared in the lines themselves.
-/

namespace FlatAsm

namespace Layout

/-- The second layout has all statements and labels of the first. -/
structure Extends (layout longer : Layout) : Prop where
  statements : layout.statements.toList <+: longer.statements.toList
  symbols : ∀ name address,
    layout.image.symbols.find? name = some address →
      longer.image.symbols.find? name = some address

namespace Extends

theorem refl (layout : Layout) : Extends layout layout :=
  ⟨List.prefix_rfl, fun _ _ found => found⟩

theorem trans {first second third : Layout}
    (earlier : Extends first second) (later : Extends second third) :
    Extends first third := by
  constructor
  · exact earlier.statements.trans later.statements
  · intro name address found
    exact later.symbols name address (earlier.symbols name address found)

theorem contains {layout longer : Layout}
    (further : Extends layout longer) {name : Text}
    (known : layout.image.symbols.contains name = true) :
    longer.image.symbols.find? name =
      layout.image.symbols.find? name := by
  rcases Option.isSome_iff_exists.1 known with ⟨address, found⟩
  rw [found, further.symbols name address found]

end Extends

variable {constants : Table Int64}

/-- An item is placed after all that is there. -/
theorem extends_of_place {layout longer : Layout} {item : Item}
    (placed : layout.place constants item = .ok longer) :
    layout.Extends longer := by
  cases item with
  | label line name =>
      simp only [place, declare] at placed
      split at placed
      · cases placed
      · next unknown =>
        cases placed
        constructor
        · exact List.prefix_rfl
        · intro other address found
          rw [Image.define, Table.find?_insert, if_neg, found]
          rintro rfl
          simp [Table.contains, found] at unknown
  | instruction content =>
      obtain ⟨code, image, -, emitted, rfl⟩ :=
        append_eq_ok_iff.1 placed
      constructor
      · rw [Array.toList_push]
        exact List.prefix_append _ _
      · intro other address found
        rw [Image.symbols_emit emitted]
        exact found

theorem extends_of_foldlM {items : List Item} {layout longer : Layout}
    (placed : items.foldlM (place constants) layout = .ok longer) :
    layout.Extends longer := by
  induction items generalizing layout with
  | nil =>
      cases placed
      exact .refl _
  | cons item rest inductionHypothesis =>
      rw [List.foldlM_cons] at placed
      rcases bind_eq_ok_iff.1 placed with ⟨middle, first, others⟩
      exact (extends_of_place first).trans (inductionHypothesis others)

/-- Items that follow leave the layout of those before them as it is. -/
theorem extends_of_append {front back : List Item}
    {layout longer : Layout}
    (placed : ofItems constants front = .ok layout)
    (longerPlaced : ofItems constants (front ++ back) = .ok longer) :
    layout.Extends longer := by
  rw [ofItems, List.foldlM_append] at longerPlaced
  rcases bind_eq_ok_iff.1 longerPlaced with ⟨middle, first, others⟩
  cases placed.symm.trans first
  exact extends_of_foldlM others

end Layout

/-! ## Bytes -/

/-- A segment looks the same under all addresses of its labels. -/
theorem Segment.render_congr {segment : Segment}
    {addresses others : Table Int}
    (agree : ∀ reference ∈ segment.references,
      others.find? reference.2 = addresses.find? reference.2) :
    segment.render (finalWord others) =
      segment.render (finalWord addresses) := by
  cases segment with
  | fixed bytes => rw [render, render]
  | field value width line =>
      have same : value.weigh (SymInt.addressWord others) =
          value.weigh (SymInt.addressWord addresses) := by
        apply SymInt.weigh_congr
        intro term member
        have found := agree (line, term.1)
          (List.mem_map.2 ⟨term, member, rfl⟩)
        rw [SymInt.addressWord, SymInt.addressWord, found]
      rw [render, render, finalWord, finalWord, same]

/-- The bytes of the items stay in front once more items are laid out. -/
theorem Layout.patchAll_prefix {front back : List Item}
    {layout longer : Layout} {image longerImage : Image}
    (laidOut : LaidOut front layout)
    (longerLaidOut : LaidOut (front ++ back) longer)
    (further : layout.Extends longer)
    (resolved : layout.image.unresolved? = none)
    (patched : layout.image.patchAll = .ok image)
    (longerPatched : longer.image.patchAll = .ok longerImage) :
    image.data.toList <+: longerImage.data.toList := by
  have segments : Items.segments (front ++ back) =
      Items.segments front ++ Items.segments back := by
    simp [Items.segments]
  have same : (Items.segments front).flatMap
        (Segment.render (Segment.finalWord longer.image.symbols)) =
      (Items.segments front).flatMap
        (Segment.render (Segment.finalWord layout.image.symbols)) := by
    -- labels of the front are found in both tables, at the same address
    apply List.flatMap_congr
    intro segment member
    apply Segment.render_congr
    intro reference inSegment
    apply further.contains
    apply (Image.unresolved?_eq_none_iff laidOut.madeOf.relocations).1
      resolved
    exact List.mem_flatMap.2 ⟨segment, member, inSegment⟩
  rw [laidOut.madeOf.toList_patchAll patched,
    longerLaidOut.madeOf.toList_patchAll longerPatched, segments,
    List.flatMap_append, same]
  exact List.prefix_append _ _

namespace Assembler

/--
Appending to whole lines never changes what has been assembled from them.

The image and the statements of the lines come first in those of the longer
text, and all labels of the lines keep their addresses.
-/
theorem assembleWith_append_lines {language : FormulaLanguage}
    {assembler : Assembler} {lines text : Text} {program longer : Program}
    (whole : lines = [] ∨ lines.getLast? = some Token.lineFeed)
    (assembled :
      assembler.assembleWith language (.ok lines) = .ok program)
    (longerAssembled :
      assembler.assembleWith language (.ok (lines ++ text)) =
        .ok longer) :
    program.binary.toList <+: longer.binary.toList ∧
      (∀ name address, program.symbols.find? name = some address →
        longer.symbols.find? name = some address) ∧
      program.statements <+: longer.statements := by
  have delivered := assembler.parser_delivers language lines
  rcases laidOut_of_assembleWith assembled delivered with
    ⟨ended, layout, placed, laidOut, finished⟩
  rw [ended] at delivered
  have longerDelivered := Parser.delivers_append_of_ended whole delivered
    (Parser.parse_delivers _ _ (tokenize _ text))
  rcases laidOut_of_assembleWith longerAssembled longerDelivered with
    ⟨-, longerLayout, longerPlaced, longerLaidOut, longerFinished⟩
  rcases Layout.finish_eq_ok_iff.1 finished with
    ⟨resolved, -, image, patched, rfl⟩
  rcases Layout.finish_eq_ok_iff.1 longerFinished with
    ⟨-, -, longerImage, longerPatched, rfl⟩
  have further := Layout.extends_of_append placed longerPlaced
  refine ⟨?_, further.symbols, further.statements⟩
  exact Layout.patchAll_prefix laidOut longerLaidOut further resolved
    patched longerPatched

/-- A jump forward, with its target at the end of the lines. -/
def forwardJump : Text :=
  Text.ascii "jmp end\ndata 1\n.end\n"

def backwardJump : Text :=
  Text.ascii "\n.after\njmp end - after"

/-- The jump is filled in with the same address in both programs. -/
theorem forwardJump_append :
    ∃ program longer,
      (forwardJump = [] ∨ forwardJump.getLast? = some Token.lineFeed) ∧
        initial.assembleWith noFormulas (.ok forwardJump) = .ok program ∧
        initial.assembleWith noFormulas
          (.ok (forwardJump ++ backwardJump)) = .ok longer ∧
        program.binary.toList = [8, 3, 1] ∧
        longer.binary.toList = [8, 3, 1, 8, 0] ∧
        program.binary.toList <+: longer.binary.toList ∧
        (∀ name address, program.symbols.find? name = some address →
          longer.symbols.find? name = some address) ∧
        program.statements <+: longer.statements := by
  have whole : forwardJump = [] ∨
      forwardJump.getLast? = some Token.lineFeed := by
    decide
  have evaluated :
      ((initial.assembleWith noFormulas (.ok forwardJump)).map
        fun program => program.binary.toList).toOption =
          some [8, 3, 1] := by
    decide +kernel
  have longerEvaluated :
      ((initial.assembleWith noFormulas
        (.ok (forwardJump ++ backwardJump))).map
          fun program => program.binary.toList).toOption =
            some [8, 3, 1, 8, 0] := by
    decide +kernel
  cases assembled :
      initial.assembleWith noFormulas (.ok forwardJump) with
  | error fault =>
      rw [assembled] at evaluated
      cases evaluated
  | ok program =>
      cases longerAssembled : initial.assembleWith noFormulas
          (.ok (forwardJump ++ backwardJump)) with
      | error fault =>
          rw [longerAssembled] at longerEvaluated
          cases longerEvaluated
      | ok longer =>
          rw [assembled] at evaluated
          rw [longerAssembled] at longerEvaluated
          exact ⟨program, longer, whole, rfl, rfl,
            Option.some.inj evaluated, Option.some.inj longerEvaluated,
            assembleWith_append_lines whole assembled longerAssembled⟩

end Assembler

end FlatAsm
