import FlatAsm.Proofs.ReferenceEquivalence
import Mathlib.Data.List.Nodup

/-!
# Layouts under other names of labels

If different labels keep different names, renaming them changes nothing but
the order in which the labels of a value are visited, and with it the order
of relocations.  The same words are added up in the end, so the bytes, the
places of statements and the addresses of labels stay what they are.
-/

namespace FlatAsm

/-! ## Tables -/

namespace Table

variable {α : Type}

/-- The table with other keys. -/
def renameKeys (rename : Text → Text) (table : Table α) : Table α :=
  ofList (table.entries.map fun entry => (rename entry.1, entry.2))

theorem renameKeys_congr {rename other : Text → Text} {table : Table α}
    (same : ∀ entry ∈ table.entries, rename entry.1 = other entry.1) :
    table.renameKeys rename = table.renameKeys other := by
  rw [renameKeys, renameKeys, List.map_congr_left]
  intro entry member
  rw [same entry member]

theorem find?_foldl_insert_iff {entries : List (Text × α)}
    (distinct : entries.Pairwise fun first second => first.1 ≠ second.1)
    (table : Table α) (key : Text) (value : α) :
    (entries.foldl (fun table entry => table.insert entry.1 entry.2)
        table).find? key = some value ↔
      (key, value) ∈ entries ∨
        table.find? key = some value ∧
          ∀ entry ∈ entries, entry.1 ≠ key := by
  induction entries generalizing table with
  | nil => simp
  | cons head rest inductionHypothesis =>
      rcases List.pairwise_cons.1 distinct with ⟨others, distinctRest⟩
      rw [List.foldl_cons, inductionHypothesis distinctRest, find?_insert]
      grind

variable {rename : Text → Text} (injective : Function.Injective rename)

include injective

/-- What is found under a key was there under the old key. -/
theorem find?_renameKeys_iff (table : Table α) (key : Text) (value : α) :
    (table.renameKeys rename).find? key = some value ↔
      ∃ old, rename old = key ∧ table.find? old = some value := by
  have distinct : (table.entries.map fun entry =>
      (rename entry.1, entry.2)).Pairwise
        fun first second => first.1 ≠ second.1 := by
    rw [List.pairwise_map]
    refine table.sorted.imp fun {first second} before same => ?_
    rw [injective same] at before
    exact List.lt_irrefl _ before
  have found := find?_foldl_insert_iff distinct empty key value
  rw [renameKeys, ofList, found]
  simp only [List.mem_map, ← mem_entries_iff, Prod.mk.injEq, Prod.exists]
  grind [empty]

theorem find?_renameKeys (table : Table α) (key : Text) :
    (table.renameKeys rename).find? (rename key) = table.find? key := by
  apply Option.ext
  intro value
  rw [find?_renameKeys_iff injective]
  constructor
  · rintro ⟨old, same, found⟩
    rw [← injective same]
    exact found
  · intro found
    exact ⟨key, rfl, found⟩

theorem contains_renameKeys (table : Table α) (key : Text) :
    (table.renameKeys rename).contains (rename key) =
      table.contains key := by
  rw [contains, contains, find?_renameKeys injective]

theorem renameKeys_insert (table : Table α) (key : Text) (value : α) :
    (table.insert key value).renameKeys rename =
      (table.renameKeys rename).insert (rename key) value := by
  apply ext_find?
  intro other
  apply Option.ext
  intro found
  rw [find?_renameKeys_iff injective, find?_insert]
  simp only [find?_insert]
  by_cases here : other = rename key
  · subst here
    constructor
    · rintro ⟨old, same, added⟩
      rw [if_pos (injective same)] at added
      rw [if_pos rfl, added]
    · intro added
      rw [if_pos rfl] at added
      exact ⟨key, rfl, by rw [if_pos rfl, added]⟩
  · rw [if_neg here, find?_renameKeys_iff injective]
    refine exists_congr fun old => and_congr_right ?_
    rintro rfl
    rw [if_neg fun same => here (congrArg rename same)]

/-- Renaming only changes the order of the entries. -/
theorem perm_renameKeys (table : Table α) :
    (table.renameKeys rename).entries.Perm
      (table.entries.map fun entry => (rename entry.1, entry.2)) := by
  apply (List.perm_ext_iff_of_nodup (nodup_entries _) _).2
  · rintro ⟨key, value⟩
    rw [mem_entries_iff, find?_renameKeys_iff injective]
    simp only [List.mem_map, Prod.exists, Prod.mk.injEq, mem_entries_iff]
    grind
  · refine List.Nodup.map ?_ (nodup_entries table)
    rintro ⟨key, value⟩ ⟨other, value'⟩ same
    simp only [Prod.mk.injEq] at same
    rw [injective same.1, same.2]

end Table

/-! ## Values -/

namespace SymInt

/-- The value with other labels. -/
def rename (rename : Text → Text) (value : SymInt) : SymInt where
  base := value.base
  coefficients := value.coefficients.renameKeys rename

theorem weightedSum_perm (weight : Text → Int64)
    {entries others : List (Text × Int64)} (perm : entries.Perm others) :
    weightedSum weight entries = weightedSum weight others := by
  induction perm with
  | nil => rfl
  | cons entry _ inductionHypothesis => simp [inductionHypothesis]
  | swap first second rest =>
      simp only [weightedSum_cons]
      grind
  | trans _ _ first second => exact first.trans second

variable {rename : Text → Text} (injective : Function.Injective rename)

include injective

theorem weigh_rename (weight : Text → Int64) (value : SymInt) :
    (value.rename rename).weigh weight =
      value.weigh fun label => weight (rename label) := by
  have perm := Table.perm_renameKeys injective value.coefficients
  rw [weigh, SymInt.rename, weightedSum_perm weight perm, weigh,
    weightedSum, weightedSum, List.map_map]
  rfl

theorem isConstant_rename (value : SymInt) :
    (value.rename rename).isConstant = value.isConstant := by
  have perm := Table.perm_renameKeys injective value.coefficients
  rw [isConstant, SymInt.rename, perm.all_eq, List.all_map, isConstant]
  rfl

theorem perm_terms_rename (value : SymInt) :
    (value.rename rename).terms.Perm
      (value.terms.map fun term => (rename term.1, term.2)) := by
  have perm := Table.perm_renameKeys injective value.coefficients
  have filtered := perm.filter fun entry => entry.2 != 0
  rw [List.filter_map] at filtered
  exact filtered

/-- A value comes to the same if its labels keep their addresses. -/
theorem weigh_rename_addressWord (addresses : Table Int) (value : SymInt) :
    (value.rename rename).weigh
        (addressWord (addresses.renameKeys rename)) =
      value.weigh (addressWord addresses) := by
  have words : (fun label => addressWord (addresses.renameKeys rename)
      (rename label)) = addressWord addresses := by
    funext label
    rw [addressWord, addressWord, Table.find?_renameKeys injective]
  rw [weigh_rename injective, words]

end SymInt

/-! ## Codes and statements -/

/-- The instruction with other labels. -/
def Instruction.rename (rename : Text → Text)
    (instruction : Instruction) : Instruction :=
  ⟨instruction.line,
    instruction.operation.mapValues (SymInt.rename rename)⟩

/-- The statement with other labels. -/
def Item.rename (rename : Text → Text) : Item → Item
  | .label line name => .label line (rename name)
  | .instruction content => .instruction (content.rename rename)

/-- The segment with other labels. -/
def Segment.rename (rename : Text → Text) : Segment → Segment
  | .fixed bytes => .fixed bytes
  | .field value width line => .field (value.rename rename) width line

/-- Both give a result and the results are related, or both fail. -/
inductive Corresponds {α β : Type} (related : α → β → Prop) :
    Except Error α → Except Error β → Prop where
  | ok {value : α} {other : β} (values : related value other) :
      Corresponds related (.ok value) (.ok other)
  | error {fault fault' : Error} :
      Corresponds related (.error fault) (.error fault')

theorem Corresponds.imp {α β : Type} {related wider : α → β → Prop}
    {outcome : Except Error α} {outcome' : Except Error β}
    (corresponds : Corresponds related outcome outcome')
    (implied : ∀ value other, outcome = .ok value →
      related value other → wider value other) :
    Corresponds wider outcome outcome' := by
  cases corresponds with
  | ok values => exact .ok (implied _ _ rfl values)
  | error => exact .error

theorem Corresponds.of_exists_iff {α β : Type} {related : α → β → Prop}
    {outcome : Except Error α} {outcome' : Except Error β}
    (together : (∃ other, outcome' = .ok other) ↔
      ∃ value, outcome = .ok value)
    (values : ∀ value other, outcome = .ok value → outcome' = .ok other →
      related value other) : Corresponds related outcome outcome' := by
  cases outcome with
  | ok value =>
      obtain ⟨other, rfl⟩ := together.2 ⟨value, rfl⟩
      exact .ok (values value other rfl rfl)
  | error fault =>
      cases outcome' with
      | error fault' => exact .error
      | ok other =>
          obtain ⟨value, impossible⟩ := together.1 ⟨other, rfl⟩
          cases impossible

section

variable {rename : Text → Text} (injective : Function.Injective rename)

include injective

theorem Operation.isOutOfRange_rename (value : SymInt) :
    isOutOfRange (value.rename rename) = isOutOfRange value := by
  rw [isOutOfRange, SymInt.isConstant_rename injective]
  rfl

theorem Operation.encode_data_rename (items : List SymInt) :
    (mapValues (SymInt.rename rename) (.data items)).encode =
      (encode (.data items)).map
        (Code.mapValues (SymInt.rename rename)) := by
  have same : (items.map (SymInt.rename rename)).any isOutOfRange =
      items.any isOutOfRange := by
    rw [List.any_map]
    exact congrArg items.any
      (funext fun value => isOutOfRange_rename injective value)
  rw [mapValues, encode, same, encode]
  split
  · rfl
  · simp [Except.map, Code.mapValues, Function.comp_def]

/-- Codes depend on labels in their fields only. -/
theorem Operation.encode_rename (operation : Operation) :
    (operation.mapValues (SymInt.rename rename)).encode =
      operation.encode.map (Code.mapValues (SymInt.rename rename)) := by
  cases operation with
  | data items => exact encode_data_rename injective items
  | jump opcode width target => rfl
  | reversible pair width left right reversed =>
      rcases left with _ | (_ | _ | _ | _) <;> rfl
  | unary opcode width operand =>
      rcases operand with _ | (_ | _ | _ | _) <;> rfl
  | nullary opcode width => rfl

theorem Instruction.encode_rename (content : Instruction) :
    Corresponds
      (fun code other => other = code.mapValues (SymInt.rename rename))
      content.encode (content.rename rename).encode := by
  rw [encode, encode, Instruction.rename,
    Operation.encode_rename injective]
  cases content.operation.encode with
  | error cause => exact .error
  | ok code => exact .ok rfl

end

/-! ## Layouts -/

namespace Layout

/-- Two layouts that differ in the names of labels only. -/
structure Renamed (rename : Text → Text) (layout other : Layout) :
    Prop where
  segments : ∃ segments, layout.image.MadeOf segments ∧
    other.image.MadeOf (segments.map (Segment.rename rename)) ∧
    ∀ entry ∈ layout.image.checkedValues,
      ∃ width, .field entry.2 width entry.1 ∈ segments
  symbols : other.image.symbols = layout.image.symbols.renameKeys rename
  checked : other.image.checkedValues =
    layout.image.checkedValues.map fun entry =>
      (entry.1, entry.2.rename rename)
  offsets : other.statements.toList.map Statement.offset =
    layout.statements.toList.map Statement.offset

variable {rename : Text → Text}

theorem Renamed.empty : Renamed rename Layout.empty Layout.empty where
  segments := ⟨[], .empty, .empty, List.forall_mem_nil _⟩
  symbols := rfl
  checked := rfl
  offsets := rfl

theorem Renamed.offset_eq {layout other : Layout}
    (renamed : Renamed rename layout other) :
    other.image.offset = layout.image.offset := by
  rcases renamed.segments with ⟨segments, madeOf, otherMadeOf, -⟩
  have sizes : (segments.map (Segment.rename rename)).map Segment.size =
      segments.map Segment.size := by
    rw [List.map_map]
    apply List.map_congr_left
    rintro (bytes | ⟨value, width, line⟩) _ <;> rfl
  rw [madeOf.offset_eq, otherMadeOf.offset_eq, sizes]

end Layout

namespace Code

theorem segments_rename (rename : Text → Text) (code : Code) (line : Int) :
    (code.mapValues (SymInt.rename rename)).segments line =
      (code.segments line).map (Segment.rename rename) := by
  simp [segments, mapValues, Segment.rename]

theorem checkedValues_rename {rename : Text → Text}
    (injective : Function.Injective rename) (code : Code) :
    (code.mapValues (SymInt.rename rename)).checkedValues =
      code.checkedValues.map (SymInt.rename rename) := by
  rw [checkedValues, mapValues, List.filter_map, List.map_map,
    checkedValues, List.map_map]
  simp only [Function.comp_def, SymInt.isConstant_rename injective]

/-- Values that are checked are values of fields. -/
theorem mem_segments_of_checked {code : Code} {value : SymInt}
    (checked : value ∈ code.checkedValues) (line : Int) :
    ∃ width, .field value width line ∈ code.segments line := by
  rcases List.mem_map.1 checked with ⟨field, kept, rfl⟩
  refine ⟨field.width, List.mem_cons_of_mem _ ?_⟩
  exact List.mem_map.2 ⟨field, List.mem_of_mem_filter kept, rfl⟩

end Code

namespace Layout.Renamed

variable {rename : Text → Text} (injective : Function.Injective rename)
  {layout other : Layout}

include injective

theorem declare {constants : Table Int64}
    (keeps : ∀ name, constants.contains (rename name) =
      constants.contains name)
    (renamed : Renamed rename layout other) (line : Int) (name : Text) :
    Corresponds (Renamed rename) (layout.declare constants line name)
      (other.declare constants line (rename name)) := by
  rw [Layout.declare, Layout.declare, renamed.symbols,
    Table.contains_renameKeys injective, keeps]
  split
  · exact .error
  · rcases renamed.segments with ⟨segments, madeOf, otherMadeOf, fields⟩
    refine .ok ⟨⟨segments, ?_, ?_, fields⟩, ?_, renamed.checked,
      renamed.offsets⟩
    · exact ⟨madeOf.data, madeOf.relocations, madeOf.masked⟩
    · exact ⟨otherMadeOf.data, otherMadeOf.relocations,
        otherMadeOf.masked⟩
    · simp only [Image.define, renamed.symbols, renamed.offset_eq,
        Table.renameKeys_insert injective]

theorem append (renamed : Renamed rename layout other)
    (content : Instruction) :
    Corresponds (Renamed rename) (layout.append content)
      (other.append (content.rename rename)) := by
  have codes := Instruction.encode_rename injective content
  apply Corresponds.of_exists_iff
  · rw [Layout.exists_append_iff, Layout.exists_append_iff]
    generalize content.encode = encoded at codes ⊢
    generalize (content.rename rename).encode = otherEncoded at codes ⊢
    cases codes with
    | error => simp
    | ok values =>
        subst values
        simp [Code.hasMasks_mapValues_iff]
  · intro after otherAfter appended otherAppended
    obtain ⟨code, image, encoded, emitted, rfl⟩ :=
      Layout.append_eq_ok_iff.1 appended
    obtain ⟨otherCode, otherImage, otherEncoded, otherEmitted, rfl⟩ :=
      Layout.append_eq_ok_iff.1 otherAppended
    rw [encoded, otherEncoded] at codes
    cases codes with | ok values => ?_
    subst values
    rcases renamed.segments with ⟨segments, madeOf, otherMadeOf, fields⟩
    refine ⟨⟨segments ++ code.segments content.line, ?_, ?_, ?_⟩,
      ?_, ?_, ?_⟩
    · exact madeOf.emit emitted
    · rw [List.map_append, ← Code.segments_rename]
      exact otherMadeOf.emit otherEmitted
    · intro entry member
      rw [Image.checkedValues_emit emitted] at member
      rcases List.mem_append.1 member with earlier | latest
      · rcases fields entry earlier with ⟨width, inSegments⟩
        exact ⟨width, List.mem_append_left _ inSegments⟩
      · rcases List.mem_map.1 latest with ⟨value, checked, rfl⟩
        rcases Code.mem_segments_of_checked checked content.line with
          ⟨width, inSegments⟩
        exact ⟨width, List.mem_append_right _ inSegments⟩
    · rw [Image.symbols_emit emitted, Image.symbols_emit otherEmitted,
        renamed.symbols]
    · simp only [Image.checkedValues_emit emitted,
        Image.checkedValues_emit otherEmitted, renamed.checked,
        Code.checkedValues_rename injective, List.map_append,
        List.map_map]
      rfl
    · simp [renamed.offsets, renamed.offset_eq]

/-- Laying out one more item, under either name. -/
theorem place {constants : Table Int64}
    (keeps : ∀ name, constants.contains (rename name) =
      constants.contains name)
    (renamed : Renamed rename layout other) (item : Item) :
    Corresponds (Renamed rename) (layout.place constants item)
      (other.place constants (item.rename rename)) := by
  cases item with
  | label line name => exact renamed.declare injective keeps line name
  | instruction content => exact renamed.append injective content

/-- Laying out items, under either names. -/
theorem foldlM_place {constants : Table Int64}
    (keeps : ∀ name, constants.contains (rename name) =
      constants.contains name)
    (renamed : Renamed rename layout other) (items : List Item) :
    Corresponds (Renamed rename)
      (items.foldlM (Layout.place constants) layout)
      ((items.map (Item.rename rename)).foldlM (Layout.place constants)
        other) := by
  induction items generalizing layout other with
  | nil => exact .ok renamed
  | cons item rest inductionHypothesis =>
      have step := renamed.place injective keeps item
      rw [List.map_cons, List.foldlM_cons, List.foldlM_cons]
      generalize layout.place constants item = outcome at step
      generalize other.place constants (item.rename rename) = outcome'
        at step
      cases step with
      | error => exact .error
      | ok values => exact inductionHypothesis values

end Layout.Renamed

/-! ## Programs -/

theorem Segment.mem_references_rename_iff {rename : Text → Text}
    (injective : Function.Injective rename) {segments : List Segment}
    {reference : Int × Text} :
    reference ∈
        (segments.map (Segment.rename rename)).flatMap references ↔
      ∃ original ∈ segments.flatMap references,
        (original.1, rename original.2) = reference := by
  have single (segment : Segment) :
      reference ∈ (segment.rename rename).references ↔
        ∃ original ∈ segment.references,
          (original.1, rename original.2) = reference := by
    cases segment with
    | fixed bytes => simp [Segment.rename, references]
    | field value width line =>
        have terms := SymInt.perm_terms_rename injective value
        simp only [Segment.rename, references, List.mem_map,
          terms.mem_iff]
        grind
  simp only [List.mem_flatMap, List.mem_map]
  grind

theorem Image.find?_failsCheck_eq_none_iff (image : Image) :
    image.checks.find? image.failsCheck = none ↔
      ∀ entry ∈ image.checkedValues,
        IsByte (entry.2.resolve image.symbols).1 := by
  rw [Array.find?_eq_none, checkedValues]
  simp only [List.mem_map, forall_exists_index, and_imp,
    forall_apply_eq_imp_iff₂, Array.mem_toList_iff]
  refine forall₂_congr fun check _ => ?_
  rw [failsCheck, ← not_isByte_iff, not_not]

theorem Segment.isWide_rename_iff {rename : Text → Text}
    (injective : Function.Injective rename) (segment : Segment) :
    (segment.rename rename).IsWide ↔ segment.IsWide := by
  cases segment with
  | fixed bytes => exact .rfl
  | field value width line =>
      have terms := SymInt.perm_terms_rename injective value
      rw [Segment.rename, IsWide, IsWide, ne_eq, ne_eq,
        ← List.length_eq_zero_iff, terms.length_eq, List.length_map,
        List.length_eq_zero_iff]

/-- Two programs that differ in the names of labels only. -/
structure Program.Renamed (rename : Text → Text)
    (program other : Program) : Prop where
  binary : other.binary = program.binary
  offsets : other.statements.map Statement.offset =
    program.statements.map Statement.offset
  symbols : other.symbols = program.symbols.renameKeys rename

namespace Layout.Renamed

variable {rename : Text → Text} (injective : Function.Injective rename)
  {layout other : Layout}

include injective

theorem unresolved?_eq_none_iff (renamed : Renamed rename layout other) :
    other.image.unresolved? = none ↔ layout.image.unresolved? = none := by
  rcases renamed.segments with ⟨segments, madeOf, otherMadeOf, -⟩
  rw [Image.unresolved?_eq_none_iff madeOf.relocations,
    Image.unresolved?_eq_none_iff otherMadeOf.relocations,
    renamed.symbols]
  constructor
  · intro known reference member
    rw [← Table.contains_renameKeys injective]
    exact known _ ((Segment.mem_references_rename_iff injective).2
      ⟨reference, member, rfl⟩)
  · intro known reference member
    rcases (Segment.mem_references_rename_iff injective).1 member with
      ⟨original, inSegments, rfl⟩
    rw [Table.contains_renameKeys injective]
    exact known original inSegments

/-- A checked value comes to the same under either names. -/
theorem resolve_eq (renamed : Renamed rename layout other)
    (resolved : layout.image.unresolved? = none)
    {entry : Int × SymInt} (checked : entry ∈ layout.image.checkedValues) :
    (entry.2.rename rename).resolve other.image.symbols =
      entry.2.resolve layout.image.symbols := by
  rcases renamed.segments with ⟨segments, madeOf, -, fields⟩
  rcases fields entry checked with ⟨width, inSegments⟩
  -- sums stop short at unknown labels, so both sides have to know theirs
  have known : ∀ term ∈ entry.2.terms,
      layout.image.symbols.contains term.1 = true := by
    intro term inTerms
    apply (Image.unresolved?_eq_none_iff madeOf.relocations).1 resolved
      (entry.1, term.1)
    exact List.mem_flatMap.2
      ⟨_, inSegments, List.mem_map.2 ⟨term, inTerms, rfl⟩⟩
  have otherKnown : ∀ term ∈ (entry.2.rename rename).terms,
      other.image.symbols.contains term.1 = true := by
    intro term inTerms
    rcases List.mem_map.1
      ((SymInt.perm_terms_rename injective entry.2).mem_iff.1 inTerms) with
      ⟨original, inOriginal, rfl⟩
    rw [renamed.symbols, Table.contains_renameKeys injective]
    exact known original inOriginal
  rw [SymInt.resolve_eq_weigh known, SymInt.resolve_eq_weigh otherKnown,
    renamed.symbols, SymInt.weigh_rename_addressWord injective]

/-- Fields are patched under either names, or not at all. -/
theorem exists_patchAll_iff (renamed : Renamed rename layout other) :
    (∃ image, other.image.patchAll = .ok image) ↔
      ∃ image, layout.image.patchAll = .ok image := by
  rcases renamed.segments with ⟨segments, madeOf, otherMadeOf, -⟩
  rw [madeOf.patchAll_iff_isWide, otherMadeOf.patchAll_iff_isWide,
    List.forall_mem_map]
  refine forall₂_congr fun segment _ => ?_
  exact Segment.isWide_rename_iff injective segment

theorem patchAll_eq (renamed : Renamed rename layout other)
    {image otherImage : Image} (patched : layout.image.patchAll = .ok image)
    (otherPatched : other.image.patchAll = .ok otherImage) :
    otherImage.data = image.data := by
  rcases renamed.segments with ⟨segments, madeOf, otherMadeOf, -⟩
  apply Array.toList_inj.1
  rw [madeOf.toList_patchAll patched,
    otherMadeOf.toList_patchAll otherPatched, List.flatMap_map]
  apply List.flatMap_congr
  rintro (bytes | ⟨value, width, line⟩) _
  · rw [Segment.rename, Segment.render, Segment.render]
  · rw [Segment.rename, Segment.render, Segment.render, Segment.finalWord,
      Segment.finalWord, renamed.symbols,
      SymInt.weigh_rename_addressWord injective]

theorem checks_iff (renamed : Renamed rename layout other)
    (resolved : layout.image.unresolved? = none) :
    other.image.checks.find? other.image.failsCheck = none ↔
      layout.image.checks.find? layout.image.failsCheck = none := by
  rw [Image.find?_failsCheck_eq_none_iff,
    Image.find?_failsCheck_eq_none_iff, renamed.checked]
  simp only [List.mem_map, forall_exists_index, and_imp,
    forall_apply_eq_imp_iff₂]
  refine forall₂_congr fun entry checked => ?_
  rw [renamed.resolve_eq injective resolved checked]

/-- What depends on labels is filled in under either names. -/
theorem finish (renamed : Renamed rename layout other) :
    Corresponds (Program.Renamed rename) layout.finish other.finish := by
  apply Corresponds.of_exists_iff
  · rw [exists_finish_iff, exists_finish_iff,
      renamed.unresolved?_eq_none_iff injective,
      renamed.exists_patchAll_iff injective]
    exact and_congr_right fun resolved =>
      and_congr_left' (renamed.checks_iff injective resolved)
  · intro program otherProgram finished otherFinished
    obtain ⟨-, -, image, patched, rfl⟩ := finish_eq_ok_iff.1 finished
    obtain ⟨-, -, otherImage, otherPatched, rfl⟩ :=
      finish_eq_ok_iff.1 otherFinished
    exact ⟨renamed.patchAll_eq injective patched otherPatched,
      renamed.offsets, renamed.symbols⟩

end Layout.Renamed

/-- Assembling statements under other names. -/
theorem assembleParsed_rename {rename : Text → Text}
    (injective : Function.Injective rename) {constants : Table Int64}
    (keeps : ∀ name, constants.contains (rename name) =
      constants.contains name) (items : List Item) :
    Corresponds (Program.Renamed rename)
      (assembleParsed constants ⟨items, none⟩)
      (assembleParsed constants
        ⟨items.map (Item.rename rename), none⟩) := by
  have laidOut := Layout.Renamed.empty.foldlM_place injective keeps items
  unfold assembleParsed Layout.ofItems
  dsimp only
  generalize items.foldlM (Layout.place constants) Layout.empty = outcome
    at laidOut
  generalize (items.map (Item.rename rename)).foldlM
    (Layout.place constants) Layout.empty = outcome' at laidOut
  cases laidOut with
  | error => exact .error
  | ok renamed => exact renamed.finish injective

end FlatAsm
