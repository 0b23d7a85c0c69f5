import FlatAsm.CommandLine.Run
import FlatAsm.Proofs.ParserOutput
import FlatAsm.Proofs.TableLookup
import Mathlib.Data.List.TakeWhile

/-!
# What options ask for

Options ask for an assembler, or for something that no assembler can be.  This
is stated here without recourse to the code: every definition is a name, a
first equals sign and an integer, and of several definitions of a name the
last one counts.
-/

namespace FlatAsm

/-! ## Cutting a text in two -/

namespace Text

theorem cut_eq (mark : UInt8) (text : Text) :
    cut mark text =
      match text.dropWhile (· != mark) with
      | [] => none
      | _ :: after => some (text.takeWhile (· != mark), after) := by
  rw [cut, List.span_eq_takeWhile_dropWhile]
  cases text.dropWhile (· != mark) <;> rfl

theorem ne_of_not_mem {mark : UInt8} {text : Text} (absent : mark ∉ text) :
    ∀ byte ∈ text, (byte != mark) = true := by
  intro byte member
  rw [bne_iff_ne]
  rintro rfl
  exact absent member

theorem cut_append {mark : UInt8} {before after : Text}
    (first : mark ∉ before) :
    cut mark (before ++ mark :: after) = some (before, after) := by
  have inside := ne_of_not_mem first
  rw [cut_eq, List.takeWhile_append_of_pos inside,
    List.dropWhile_append_of_pos inside]
  simp

theorem cut_eq_none {mark : UInt8} {text : Text} (absent : mark ∉ text) :
    cut mark text = none := by
  rw [cut_eq, List.dropWhile_eq_nil_iff.2 (ne_of_not_mem absent)]

/-- A text is cut where the mark stands first, or has no mark. -/
theorem cut_cases (mark : UInt8) (text : Text) :
    mark ∉ text ∨
      ∃ before after, text = before ++ mark :: after ∧ mark ∉ before := by
  by_cases present : mark ∈ text
  · obtain ⟨before, after, split, first⟩ :=
      List.eq_append_cons_of_mem present
    exact .inr ⟨before, after, split, first⟩
  · exact .inl present

end Text

namespace CommandLine

/-! ## Definitions -/

/-- The definition gives a name a value: what is before its first equals sign
and the integer after it. -/
structure Defines (definition : Text) (entry : Text × Int64) : Prop where
  spelled : ∃ value number, definition = entry.1 ++ 0x3d :: value ∧
    readInteger value = .ok number ∧ entry.2 = Int64.ofInt number
  first : 0x3d ∉ entry.1
  definable : Assembler.isDefinable entry.1 = true

/-- The definition does not give a name a value. -/
inductive Faulty (definition : Text) : Prop where
  | markless (absent : 0x3d ∉ definition)
  | nameless (value : Text) (spelled : definition = 0x3d :: value)
  | valueless (name value : Text) (fault : ValueFault)
      (spelled : definition = name ++ 0x3d :: value) (first : 0x3d ∉ name)
      (unreadable : readInteger value = .error fault)
  | misnamed (name value : Text)
      (spelled : definition = name ++ 0x3d :: value) (first : 0x3d ∉ name)
      (rejected : Assembler.isDefinable name = false)

/-- The assembler with one more name that stands for a value. -/
def withEntry (assembler : Assembler) (entry : Text × Int64) : Assembler :=
  { assembler with
    constants := assembler.constants.insert entry.1 entry.2 }

theorem define_of_defines {definition : Text} {entry : Text × Int64}
    (defines : Defines definition entry) (assembler : Assembler) :
    define assembler definition = .ok (withEntry assembler entry) := by
  rcases entry with ⟨name, word⟩
  obtain ⟨⟨value, number, rfl, read, rfl⟩, first, definable⟩ := defines
  cases name with
  | nil => cases definable
  | cons byte rest =>
      simp only [define, Text.cut_append first, read, Assembler.predefine]
      rw [if_pos definable]
      rfl

theorem define_of_faulty {definition : Text} (faulty : Faulty definition)
    (assembler : Assembler) :
    ∃ failure, define assembler definition = .error failure := by
  cases faulty with
  | markless absent =>
      rw [define, Text.cut_eq_none absent]
      exact ⟨_, rfl⟩
  | nameless value spelled =>
      have cut := @Text.cut_append 0x3d [] value List.not_mem_nil
      rw [List.nil_append] at cut
      rw [spelled, define, cut]
      exact ⟨_, rfl⟩
  | valueless name value fault spelled first unreadable =>
      rw [spelled, define, Text.cut_append first]
      cases name with
      | nil => exact ⟨_, rfl⟩
      | cons byte rest =>
          simp only [unreadable]
          exact ⟨_, rfl⟩
  | misnamed name value spelled first rejected =>
      rw [spelled, define, Text.cut_append first]
      cases name with
      | nil => exact ⟨_, rfl⟩
      | cons byte rest =>
          simp only [Assembler.predefine, rejected]
          cases readInteger value with
          | error fault => exact ⟨_, rfl⟩
          | ok number => exact ⟨_, rfl⟩

/-- A definition gives a name a value, or it is faulty. -/
theorem defines_or_faulty (definition : Text) :
    (∃ entry, Defines definition entry) ∨ Faulty definition := by
  rcases Text.cut_cases 0x3d definition with
    absent | ⟨name, value, spelled, first⟩
  · exact .inr (.markless absent)
  · cases read : readInteger value with
    | error fault =>
        exact .inr (.valueless name value fault spelled first read)
    | ok number =>
        cases definable : Assembler.isDefinable name with
        | false => exact .inr (.misnamed name value spelled first definable)
        | true =>
            exact .inl ⟨(name, Int64.ofInt number),
              ⟨value, number, spelled, read, rfl⟩, first, definable⟩

theorem Defines.not_faulty {definition : Text} {entry : Text × Int64}
    (defines : Defines definition entry) : ¬ Faulty definition := by
  intro faulty
  obtain ⟨failure, failed⟩ := define_of_faulty faulty .initial
  cases failed.symm.trans (define_of_defines defines .initial)

theorem define_eq_ok_iff {assembler defined : Assembler}
    {definition : Text} :
    define assembler definition = .ok defined ↔
      ∃ entry, Defines definition entry ∧
        defined = withEntry assembler entry := by
  rcases defines_or_faulty definition with ⟨entry, defines⟩ | faulty
  · constructor
    · intro done
      rw [define_of_defines defines] at done
      cases done
      exact ⟨entry, defines, rfl⟩
    · rintro ⟨other, otherDefines, rfl⟩
      exact define_of_defines otherDefines assembler
  · obtain ⟨failure, failed⟩ := define_of_faulty faulty assembler
    constructor
    · intro done
      cases failed.symm.trans done
    · rintro ⟨entry, defines, -⟩
      exact absurd faulty defines.not_faulty

/-- Definitions are applied from left to right. -/
theorem foldlM_define_eq_ok_iff {assembler defined : Assembler}
    {definitions : List Text} :
    definitions.foldlM define assembler = .ok defined ↔
      ∃ entries, List.Forall₂ Defines definitions entries ∧
        defined = entries.foldl withEntry assembler := by
  induction definitions generalizing assembler with
  | nil =>
      simp only [List.foldlM_nil, List.forall₂_nil_left_iff, exists_eq_left,
        List.foldl_nil]
      constructor
      · rintro ⟨⟩
        rfl
      · rintro rfl
        rfl
  | cons definition rest inductionHypothesis =>
      rw [List.foldlM_cons, bind_eq_ok_iff]
      constructor
      · rintro ⟨middle, first, others⟩
        obtain ⟨entry, defines, rfl⟩ := define_eq_ok_iff.1 first
        obtain ⟨entries, each, rfl⟩ := inductionHypothesis.1 others
        exact ⟨entry :: entries, .cons defines each, rfl⟩
      · rintro ⟨entries, each, rfl⟩
        cases each with
        | @cons _ entry _ entries defines each =>
            exact ⟨withEntry assembler entry,
              define_eq_ok_iff.2 ⟨entry, defines, rfl⟩,
              inductionHypothesis.2 ⟨entries, each, rfl⟩⟩

theorem not_faulty_of_mem {definitions : List Text}
    {entries : List (Text × Int64)}
    (each : List.Forall₂ Defines definitions entries) :
    ∀ definition ∈ definitions, ¬ Faulty definition := by
  induction each with
  | nil => simp
  | cons defines _ inductionHypothesis =>
      exact List.forall_mem_cons.2 ⟨defines.not_faulty, inductionHypothesis⟩

theorem foldl_withEntry (assembler : Assembler)
    (entries : List (Text × Int64)) :
    entries.foldl withEntry assembler =
      { assembler with
        constants := entries.foldl
          (fun table entry => table.insert entry.1 entry.2)
          assembler.constants } := by
  induction entries generalizing assembler with
  | nil => rfl
  | cons entry rest inductionHypothesis =>
      rw [List.foldl_cons, inductionHypothesis]
      rfl

/-! ## Options -/

/-- The assembler is the one that options ask for. -/
structure Configures (options : Options) (assembler : Assembler) :
    Prop where
  width : options.width = 8 ∧ assembler.width = .byte ∨
    options.width = 16 ∧ assembler.width = .word
  /-- The last definition of a name counts. -/
  constants : ∃ entries, List.Forall₂ Defines options.defines entries ∧
    ∀ name, assembler.constants.find? name = entries.reverse.lookup name

/-- The options cannot be met. -/
def Unusable (options : Options) : Prop :=
  (options.width ≠ 8 ∧ options.width ≠ 16) ∨
    ∃ definition ∈ options.defines, Faulty definition

theorem ofBits?_eq_some_iff {bits : Int} {width : Width} :
    Width.ofBits? bits = some width ↔
      bits = 8 ∧ width = .byte ∨ bits = 16 ∧ width = .word := by
  rw [Width.ofBits?]
  split
  · next eight => simp [eight, eq_comm]
  · split
    · next sixteen => simp [sixteen, eq_comm]
    · next notEight notSixteen => simp [notEight, notSixteen]

theorem configure_eq_ok_iff {options : Options} {assembler : Assembler} :
    configure options = .ok assembler ↔ Configures options assembler := by
  have found (entries : List (Text × Int64)) (name : Text) :
      (entries.foldl (fun table entry => table.insert entry.1 entry.2)
          (∅ : Table Int64)).find? name =
        entries.reverse.lookup name := by
    rw [Table.find?_foldl_insert_eq_lookup, Table.find?_empty,
      Option.or_none]
  constructor
  · intro done
    unfold configure at done
    split at done
    · cases done
    · next width supported =>
      obtain ⟨entries, each, rfl⟩ := foldlM_define_eq_ok_iff.1 done
      rw [foldl_withEntry]
      exact ⟨ofBits?_eq_some_iff.1 supported, entries, each, found entries⟩
  · rintro ⟨width, entries, each, lookup⟩
    have supported := ofBits?_eq_some_iff.2 width
    have same : assembler =
        entries.foldl withEntry (Assembler.initial.setWidth
          assembler.width) := by
      rw [foldl_withEntry]
      rcases assembler with ⟨width, constants⟩
      have tables : constants = entries.foldl
          (fun table entry => table.insert entry.1 entry.2)
          (∅ : Table Int64) :=
        Table.ext_find? fun name =>
          (lookup name).trans (found entries name).symm
      rw [tables]
      rfl
    rw [configure, supported]
    exact foldlM_define_eq_ok_iff.2 ⟨entries, each, same⟩

/-- Options that cannot be met are met by no assembler. -/
theorem Configures.usable {options : Options} {assembler : Assembler}
    (configures : Configures options assembler) : ¬ Unusable options := by
  obtain ⟨width, entries, each, -⟩ := configures
  rintro (⟨notEight, notSixteen⟩ | ⟨definition, given, faulty⟩)
  · rcases width with ⟨eight, -⟩ | ⟨sixteen, -⟩
    · exact notEight eight
    · exact notSixteen sixteen
  · exact not_faulty_of_mem each definition given faulty

theorem exists_entries {definitions : List Text}
    (sound : ∀ definition ∈ definitions, ¬ Faulty definition) :
    ∃ entries, List.Forall₂ Defines definitions entries := by
  induction definitions with
  | nil => exact ⟨[], .nil⟩
  | cons definition rest inductionHypothesis =>
      obtain ⟨soundFirst, soundRest⟩ := List.forall_mem_cons.1 sound
      obtain ⟨entry, defines⟩ :=
        (defines_or_faulty definition).resolve_right soundFirst
      obtain ⟨entries, each⟩ := inductionHypothesis soundRest
      exact ⟨entry :: entries, .cons defines each⟩

/-- All other options are met by an assembler. -/
theorem exists_configures {options : Options}
    (usable : ¬ Unusable options) :
    ∃ assembler, Configures options assembler := by
  obtain ⟨supported, sound⟩ := not_or.1 usable
  obtain ⟨entries, each⟩ := exists_entries fun definition given faulty =>
    sound ⟨definition, given, faulty⟩
  have width : ∃ width, Width.ofBits? options.width = some width := by
    by_cases eight : options.width = 8
    · exact ⟨.byte, ofBits?_eq_some_iff.2 (.inl ⟨eight, rfl⟩)⟩
    · have sixteen := not_not.1 (not_and.1 supported eight)
      exact ⟨.word, ofBits?_eq_some_iff.2 (.inr ⟨sixteen, rfl⟩)⟩
  obtain ⟨width, known⟩ := width
  have configured : configure options =
      .ok (entries.foldl withEntry (Assembler.initial.setWidth width)) := by
    rw [configure, known]
    exact foldlM_define_eq_ok_iff.2 ⟨entries, each, rfl⟩
  exact ⟨_, configure_eq_ok_iff.1 configured⟩

end CommandLine

end FlatAsm
