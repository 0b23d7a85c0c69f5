import FlatAsm.Proofs.ParserNames
import FlatAsm.Proofs.RenamedLayout
import Mathlib.Data.Set.Function
import Mathlib.Logic.Equiv.Basic

/-!
# Label names do not matter

The labels of a text can get any other names, as long as different labels
keep different names and none gets that of a register, a mnemonic or a
constant.  All labels that a parser hands out are names of this kind, so it
is enough to say how those are renamed.
-/

namespace FlatAsm

/-! ## Labels that occur -/

section

variable {rename other : Text → Text}

theorem SymInt.rename_congr {value : SymInt}
    (same : ∀ label ∈ value.labels, rename label = other label) :
    value.rename rename = value.rename other := by
  rw [SymInt.rename, SymInt.rename, Table.renameKeys_congr]
  intro entry member
  exact same entry.1 (List.mem_map.2 ⟨entry, member, rfl⟩)

theorem Operand.mapValues_rename_congr {operand : Operand}
    (same : ∀ label ∈ operand.labels, rename label = other label) :
    operand.mapValues (SymInt.rename rename) =
      operand.mapValues (SymInt.rename other) := by
  cases operand with
  | register direct => rfl
  | displacement value =>
      exact congrArg _ (SymInt.rename_congr same)
  | indirect pointer => rfl
  | indirectDisplacement pointer value =>
      exact congrArg _ (SymInt.rename_congr same)

theorem Operation.mapValues_rename_congr {operation : Operation}
    (same : ∀ label ∈ operation.labels, rename label = other label) :
    operation.mapValues (SymInt.rename rename) =
      operation.mapValues (SymInt.rename other) := by
  cases operation with
  | data items =>
      have values : items.map (SymInt.rename rename) =
          items.map (SymInt.rename other) := by
        apply List.map_congr_left
        intro value member
        apply SymInt.rename_congr
        intro label inValue
        exact same label (List.mem_flatMap.2 ⟨value, member, inValue⟩)
      exact congrArg _ values
  | jump opcode width target =>
      exact congrArg _ (SymInt.rename_congr same)
  | reversible pair width left right reversed =>
      cases left with
      | none => rfl
      | some left =>
          rw [labels, Option.toList_some, List.flatMap_singleton] at same
          simp [mapValues, Operand.mapValues_rename_congr same]
  | unary opcode width operand =>
      cases operand with
      | none => rfl
      | some operand =>
          rw [labels, Option.toList_some, List.flatMap_singleton] at same
          simp [mapValues, Operand.mapValues_rename_congr same]
  | nullary opcode width => rfl

/-- Only the labels that occur have to get the same names. -/
theorem Item.rename_congr {item : Item}
    (same : ∀ label ∈ item.labels, rename label = other label) :
    item.rename rename = item.rename other := by
  cases item with
  | label line name =>
      rw [Item.rename, Item.rename, same name List.mem_cons_self]
  | instruction content =>
      rw [Item.rename, Item.rename, Instruction.rename,
        Instruction.rename, Operation.mapValues_rename_congr same]

end

/-- The labels of a layout are those of its items. -/
theorem Layout.mem_labels_of_ofItems {constants : Table Int64}
    {items : List Item} {layout : Layout}
    (placed : Layout.ofItems constants items = .ok layout) {name : Text}
    (declared : layout.image.symbols.contains name = true) :
    name ∈ items.flatMap Item.labels := by
  induction items using List.reverseRecOn generalizing layout with
  | nil =>
      cases placed
      cases declared
  | append_singleton items item inductionHypothesis =>
      rw [Layout.ofItems_concat] at placed
      rcases bind_eq_ok_iff.1 placed with ⟨before, earlier, last⟩
      have older := @inductionHypothesis before earlier
      rw [List.flatMap_append, List.flatMap_singleton, List.mem_append]
      cases item with
      | label line latest =>
          rw [place, declare] at last
          split at last
          · cases last
          · cases last
            rw [Image.define, Table.contains, Table.find?_insert]
              at declared
            split at declared
            · next same => simp [same, Item.labels]
            · exact .inl (older declared)
      | instruction content =>
          obtain ⟨code, image, -, emitted, rfl⟩ :=
            append_eq_ok_iff.1 last
          rw [Image.symbols_emit emitted] at declared
          exact .inl (older declared)

theorem mem_labels_of_assembleParsed {constants : Table Int64}
    {parsed : Parsed} {program : Program}
    (assembled : assembleParsed constants parsed = .ok program)
    {name : Text} (declared : program.symbols.contains name = true) :
    name ∈ parsed.items.flatMap Item.labels := by
  unfold assembleParsed at assembled
  split at assembled
  · cases assembled
  · next layout placed =>
    split at assembled
    · cases assembled
    · rcases Layout.finish_eq_ok_iff.1 assembled with ⟨-, -, _, -, rfl⟩
      exact Layout.mem_labels_of_ofItems placed declared

/-! ## Relabelling a text -/

/-- The names that are not taken by the machine or by a constant. -/
def labelNames (constants : Table Int64) : Set Text :=
  {name | Assembler.isDefinable name = true ∧
    constants.contains name = false}

instance (constants : Table Int64) (name : Text) :
    Decidable (name ∈ labelNames constants) :=
  inferInstanceAs (Decidable (_ ∧ _))

/-- New names for labels, and different ones for different labels. -/
structure Relabelling (constants : Table Int64) where
  newName : Text → Text
  mapsTo : Set.MapsTo newName (labelNames constants) (labelNames constants)
  injOn : Set.InjOn newName (labelNames constants)

namespace Relabelling

variable {constants : Table Int64} (relabelling : Relabelling constants)

/-- The new name of a label.  Constants keep their names. -/
def apply (name : Text) : Text :=
  if constants.contains name = true then name
  else relabelling.newName name

/-- The same on names that labels can have, and no change elsewhere. -/
def extended (name : Text) : Text :=
  if Assembler.isDefinable name = true then relabelling.apply name
  else name

theorem extended_of_mem {name : Text}
    (member : name ∈ labelNames constants) :
    relabelling.extended name = relabelling.newName name := by
  simp [extended, apply, member.1, member.2]

theorem extended_of_not_mem {name : Text}
    (outside : name ∉ labelNames constants) :
    relabelling.extended name = name := by
  unfold extended apply
  split
  · next definable =>
    rw [if_pos]
    by_contra unknown
    exact outside ⟨definable, Bool.eq_false_iff.2 unknown⟩
  · rfl

theorem extended_mem_iff (name : Text) :
    relabelling.extended name ∈ labelNames constants ↔
      name ∈ labelNames constants := by
  by_cases member : name ∈ labelNames constants
  · rw [relabelling.extended_of_mem member]
    exact iff_of_true (relabelling.mapsTo member) member
  · rw [relabelling.extended_of_not_mem member]

theorem extended_injective : Function.Injective relabelling.extended := by
  intro name other same
  have both : name ∈ labelNames constants ↔
      other ∈ labelNames constants := by
    rw [← relabelling.extended_mem_iff name, same,
      relabelling.extended_mem_iff]
  by_cases member : name ∈ labelNames constants
  · have otherMember := both.1 member
    rw [relabelling.extended_of_mem member,
      relabelling.extended_of_mem otherMember] at same
    exact relabelling.injOn member otherMember same
  · have otherOutside := mt both.2 member
    rw [relabelling.extended_of_not_mem member,
      relabelling.extended_of_not_mem otherOutside] at same
    exact same

theorem contains_extended (name : Text) :
    constants.contains (relabelling.extended name) =
      constants.contains name := by
  by_cases member : name ∈ labelNames constants
  · rw [relabelling.extended_of_mem member,
      (relabelling.mapsTo member).2, member.2]
  · rw [relabelling.extended_of_not_mem member]

theorem extended_of_isDefinable {name : Text}
    (definable : Assembler.isDefinable name = true) :
    relabelling.extended name = relabelling.apply name :=
  if_pos definable

/-- Two label names can be exchanged. -/
def swap {first second : Text} (isFirst : first ∈ labelNames constants)
    (isSecond : second ∈ labelNames constants) :
    Relabelling constants where
  newName := Equiv.swap first second
  mapsTo := by
    intro name member
    rw [Equiv.swap_apply_def]
    split
    · exact isSecond
    split
    · exact isFirst
    · exact member
  injOn := (Equiv.injective _).injOn

end Relabelling

/--
The statements of a text can be assembled under other names of labels if
they can be under their own, and then they give the same image with every
statement in its place, and the same addresses under the new names.
-/
theorem assembleParsed_relabelled {evaluator : Option Evaluator}
    {width : Width} {constants : Table Int64} {text : Text}
    {items : List Item}
    (delivered : (Parser.ofText evaluator width constants text).Delivers
      items none)
    (relabelling : Relabelling constants) :
    Corresponds (Program.Renamed relabelling.apply)
      (assembleParsed constants ⟨items, none⟩)
      (assembleParsed constants
        ⟨items.map (Item.rename relabelling.apply), none⟩) := by
  -- the extension is injective on all names, and no different on these
  have agree (label : Text) (occurs : label ∈ items.flatMap Item.labels) :
      relabelling.extended label = relabelling.apply label := by
    rcases List.mem_flatMap.1 occurs with ⟨item, member, inItem⟩
    exact relabelling.extended_of_isDefinable
      (delivered.isDefinable item member label inItem)
  have sameItems : items.map (Item.rename relabelling.extended) =
      items.map (Item.rename relabelling.apply) := by
    apply List.map_congr_left
    intro item member
    apply Item.rename_congr
    intro label inItem
    exact agree label (List.mem_flatMap.2 ⟨item, member, inItem⟩)
  rw [← sameItems]
  apply (assembleParsed_rename relabelling.extended_injective
    relabelling.contains_extended items).imp
  intro program other assembled renamed
  refine ⟨renamed.binary, renamed.offsets, renamed.symbols.trans ?_⟩
  apply Table.renameKeys_congr
  intro entry member
  apply agree
  apply mem_labels_of_assembleParsed assembled
  rw [Table.contains, Table.mem_entries_iff.1 member]
  rfl

/-- Two labels in one value, and a constant. -/
def crossedLabels : Text :=
  Text.ascii "jmp b\n.a\ndata a + b + one\n.b\njmp a - b"

def crossedConstants : Table Int64 :=
  Table.empty.insert (Text.ascii "one") 1

/-- The labels exchange their names. -/
def crossing : Relabelling crossedConstants :=
  have isFirst : Text.ascii "a" ∈ labelNames crossedConstants := by
    decide +kernel
  have isSecond : Text.ascii "b" ∈ labelNames crossedConstants := by
    decide +kernel
  .swap isFirst isSecond

/-- Exchanging the labels exchanges their addresses and no bytes. -/
theorem crossedLabels_relabelled :
    ∃ items program other,
      (Parser.ofText none .byte crossedConstants crossedLabels).Delivers
          items none ∧
        assembleParsed crossedConstants ⟨items, none⟩ = .ok program ∧
        assembleParsed crossedConstants
            ⟨items.map (Item.rename crossing.apply), none⟩ = .ok other ∧
        Program.Renamed crossing.apply program other ∧
        program.binary.toList = [8, 3, 6, 8, 255] ∧
        program.symbols =
          .ofList [(Text.ascii "a", 2), (Text.ascii "b", 3)] ∧
        other.symbols =
          .ofList [(Text.ascii "a", 3), (Text.ascii "b", 2)] := by
  have delivered := Parser.parse_delivers .byte crossedConstants
    (tokenize none crossedLabels)
  have ended : (parse .byte crossedConstants
      (tokenize none crossedLabels)).fault = none := by
    decide +kernel
  have evaluated :
      ((assembleParsed crossedConstants
        ⟨(parse .byte crossedConstants
          (tokenize none crossedLabels)).items, none⟩).map fun program =>
            (program.binary.toList, program.symbols)).toOption =
        some ([8, 3, 6, 8, 255],
          .ofList [(Text.ascii "a", 2), (Text.ascii "b", 3)]) := by
    decide +kernel
  rw [ended] at delivered
  have corresponds := assembleParsed_relabelled delivered crossing
  generalize assembled : assembleParsed crossedConstants _ = outcome
    at evaluated corresponds
  generalize reassembled : assembleParsed crossedConstants _ = outcome'
    at corresponds
  cases corresponds with
  | error => cases evaluated
  | ok renamed =>
      rcases Prod.mk.inj (Option.some.inj evaluated) with ⟨image, addresses⟩
      refine ⟨_, _, _, delivered, assembled, reassembled, renamed, image,
        addresses, ?_⟩
      rw [renamed.symbols, addresses]
      decide +kernel

end FlatAsm
