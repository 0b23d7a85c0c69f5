import FlatAsm.Proofs.ImageSegments
import FlatAsm.Proofs.SymbolicArithmetic

/-!
# What fields hold after relocation

An image is made by writing bytes and integers, with checks in between.  Each
time the relocations are applied, every field grows by the sum of its
coefficients times the addresses of its labels, as far as it has room for
that, and nothing else changes.  So a field holds the value of its integer
after the first time, and the base plus a multiple of that sum in general.

This holds for every width whose bits can be counted, which is every width
below 2⁶⁰ bytes.  A field of that many bytes has no mask, and there is no
image with one.
-/

namespace FlatAsm

/-- What can be written to an image. -/
inductive Writing where
  | bytes (content : List UInt8)
  | integer (value : SymInt) (width : Width) (line : Int)
  | check (value : SymInt) (line : Int)
  deriving DecidableEq, Repr

/-- The segments that a writing adds to an image. -/
def Writing.segments : Writing → List Segment
  | .bytes content => [.fixed content]
  | .integer value width line => [.field value width line]
  | .check _ _ => []

/-- If a writing is an integer, its width has a mask. -/
def Writing.HasMask : Writing → Prop
  | .bytes _ | .check _ _ => True
  | .integer _ width _ => width.mask?.isSome = true

namespace Image

/-- Write something to an image. -/
def extend (image : Image) : Writing → Except Breakdown Image
  | .bytes content => .ok (image.write content)
  | .integer value width line => image.writeInteger value width line
  | .check value line => .ok (image.checkByte value line)

/-- A new image with all that has been written to it. -/
def ofWritings (writings : List Writing) : Except Breakdown Image :=
  writings.foldlM extend .empty

/-- The image after applying relocations, whatever is reported. -/
def relocate (image : Image) : Except Breakdown Image :=
  image.applyRelocations.map Prod.fst

/-- What has been written, after applying relocations several times. -/
def relocated (addresses : Table Int) (writings : List Writing) :
    Nat → Except Breakdown Image
  | 0 => (ofWritings writings).map fun image =>
      { image with symbols := addresses }
  | times + 1 => relocated addresses writings times >>= relocate

/-! ## Writing -/

theorem exists_extend_iff (image : Image) (writing : Writing) :
    (∃ after, image.extend writing = .ok after) ↔ writing.HasMask := by
  cases writing with
  | bytes content => simp [extend, Writing.HasMask]
  | check value line => simp [extend, Writing.HasMask]
  | integer value width line =>
      simp [extend, Writing.HasMask, writeInteger_eq_ok_iff]

/-- There is an image if all fields that are written have masks. -/
theorem exists_ofWritings_iff (writings : List Writing) :
    (∃ image, ofWritings writings = .ok image) ↔
      ∀ writing ∈ writings, writing.HasMask :=
  exists_foldlM_iff exists_extend_iff

theorem MadeOf.extend {image after : Image} {segments : List Segment}
    (madeOf : image.MadeOf segments) {writing : Writing}
    (written : image.extend writing = .ok after) :
    after.MadeOf (segments ++ writing.segments) := by
  cases writing with
  | bytes content =>
      cases written
      exact madeOf.write content
  | integer value width line => exact madeOf.writeInteger written
  | check value line =>
      cases written
      rw [Writing.segments, List.append_nil]
      exact madeOf.checkByte value line

theorem madeOf_of_ofWritings {writings : List Writing} {image : Image}
    (written : ofWritings writings = .ok image) :
    image.MadeOf (writings.flatMap Writing.segments) := by
  refine foldlM_induction (motive := fun front image =>
    image.MadeOf (front.flatMap Writing.segments)) written MadeOf.empty ?_
  intro front writing before after _ madeOf extended
  rw [List.flatMap_append, List.flatMap_singleton]
  exact madeOf.extend extended

/-- Checks are kept of what was to be checked. -/
theorem mem_checks_of_ofWritings {writings : List Writing} {image : Image}
    (written : ofWritings writings = .ok image) :
    ∀ check ∈ image.checks, .check check.value check.line ∈ writings := by
  refine foldlM_induction (motive := fun front image =>
    ∀ check ∈ image.checks, .check check.value check.line ∈ front)
    written ?_ ?_
  · intro check member
    exact absurd member (Array.not_mem_empty check)
  · intro front writing before after _ kept extended check member
    cases writing with
    | bytes content =>
        cases extended
        exact List.mem_append_left _ (kept check member)
    | integer value width line =>
        obtain ⟨-, rfl⟩ := writeInteger_eq_ok_iff.1 extended
        exact List.mem_append_left _ (kept check member)
    | check value line =>
        cases extended
        rcases Array.mem_push.1 member with earlier | rfl
        · exact List.mem_append_left _ (kept check earlier)
        · exact List.mem_append_right _ List.mem_cons_self

/-! ## Applying relocations over and over -/

/-- The base plus several times the sum of coefficients times addresses. -/
def exactAfter (addresses : Table Int) (times : Nat) (value : SymInt) : Int :=
  value.base.toInt + times *
    (value.coefficients.entries.map fun entry =>
      entry.2.toInt * (addresses.find? entry.1).getD 0).sum

/-- What a field with room for a word holds for a value. -/
def wordAfter (addresses : Table Int) (times : Nat) (value : SymInt) :
    UInt64 :=
  (Int64.ofInt (exactAfter addresses times value)).toUInt64

theorem wordAfter_zero (addresses : Table Int) :
    wordAfter addresses 0 = Segment.baseWord := by
  funext value
  simp [wordAfter, exactAfter, Segment.baseWord]

theorem wordAfter_succ (addresses : Table Int) (times : Nat)
    (value : SymInt) :
    wordAfter addresses (times + 1) value =
      wordAfter addresses times value +
        (SymInt.weightedSum (SymInt.addressWord addresses)
          value.terms).toUInt64 := by
  have added : SymInt.weightedSum (SymInt.addressWord addresses) value.terms =
      Int64.ofInt (value.coefficients.entries.map fun entry =>
        entry.2.toInt * (addresses.find? entry.1).getD 0).sum := by
    rw [SymInt.terms, SymInt.weightedSum_filter,
      SymInt.ofInt_sum fun label => (addresses.find? label).getD 0]
    rfl
  rw [wordAfter, wordAfter, added, ← Int64.toUInt64_add, ← Int64.ofInt_add,
    exactAfter, exactAfter, Int.natCast_succ, Int.add_mul, Int.one_mul,
    Int.add_assoc]

/-- After the first time, a field holds the value of its integer. -/
theorem wordAfter_one {addresses : Table Int} {value : SymInt}
    (known : value.Known addresses) :
    ∃ word, value.resolve addresses = (word, true) ∧
      wordAfter addresses 1 value = word.toUInt64 := by
  refine ⟨_, SymInt.resolve_of_known known, ?_⟩
  rw [wordAfter_succ, wordAfter_zero, Segment.baseWord,
    ← Int64.toUInt64_add, SymInt.weigh_eq_base_add]

/-- Unless a label has no address, applying relocations patches. -/
theorem relocate_eq_patchAll {image : Image}
    (resolved : image.unresolved? = none) :
    image.relocate = image.patchAll := by
  simp only [relocate, applyRelocations, resolved]
  cases image.patchAll with
  | error reason => rfl
  | ok patched =>
      dsimp only
      split <;> rfl

section

variable {addresses : Table Int} {writings : List Writing}

/-- Every label that counts in a field has an address. -/
def Resolvable (addresses : Table Int) (writings : List Writing) : Prop :=
  ∀ value width line, .integer value width line ∈ writings →
    value.Known addresses

theorem Resolvable.references (resolvable : Resolvable addresses writings) :
    ∀ reference ∈
        (writings.flatMap Writing.segments).flatMap Segment.references,
      addresses.contains reference.2 = true := by
  intro reference member
  obtain ⟨segment, inSegments, inReferences⟩ := List.mem_flatMap.1 member
  obtain ⟨writing, inWritings, added⟩ := List.mem_flatMap.1 inSegments
  cases writing with
  | check value line => cases added
  | bytes content =>
      rw [List.mem_singleton.1 added] at inReferences
      cases inReferences
  | integer value width line =>
      rw [List.mem_singleton.1 added] at inReferences
      obtain ⟨term, inTerms, rfl⟩ := List.mem_map.1 inReferences
      exact SymInt.known_iff_terms.1
        (resolvable value width line inWritings) term inTerms

/-- What an image is after applying relocations, if every label is known. -/
structure RelocatedTo (addresses : Table Int) (writings : List Writing)
    (times : Nat) (image : Image) : Prop where
  symbols : image.symbols = addresses
  checks : ∀ check ∈ image.checks,
    .check check.value check.line ∈ writings
  relocations : image.relocations.toList =
    Segment.relocationsFrom 0 (writings.flatMap Writing.segments)
  masked : ∀ segment ∈ writings.flatMap Writing.segments, segment.HasMask
  data : image.data.toList =
    (writings.flatMap Writing.segments).flatMap
      (Segment.render (wordAfter addresses times))

namespace RelocatedTo

variable {times : Nat} {image : Image}

theorem unresolved? (resolvable : Resolvable addresses writings)
    (before : RelocatedTo addresses writings times image) :
    image.unresolved? = none := by
  rw [unresolved?_eq_none_iff before.relocations, before.symbols]
  exact resolvable.references

theorem relocate (resolvable : Resolvable addresses writings)
    (wide : ∀ segment ∈ writings.flatMap Writing.segments, segment.IsWide)
    (before : RelocatedTo addresses writings times image) :
    ∃ after, image.relocate = .ok after ∧
      RelocatedTo addresses writings (times + 1) after := by
  obtain ⟨patched, done, filled⟩ := exists_patchAll before.data
    before.relocations before.masked wide
  rw [relocate_eq_patchAll (before.unresolved? resolvable)]
  refine ⟨_, done, before.symbols, before.checks, before.relocations,
    before.masked, ?_⟩
  rw [before.symbols] at filled
  simpa only [← wordAfter_succ] using filled

/-- A segment stands where it was written. -/
theorem fieldBytes_eq (after : RelocatedTo addresses writings times image)
    {front back : List Writing} {writing : Writing} {segment : Segment}
    (split : writings = front ++ writing :: back)
    (added : writing.segments = [segment]) {before : Image}
    (written : ofWritings front = .ok before) :
    fieldBytes image.data before.offset segment.size =
      segment.render (wordAfter addresses times) := by
  have content := after.data
  rw [split, List.flatMap_append, List.flatMap_cons, added,
    List.flatMap_append, List.flatMap_append, List.flatMap_singleton,
    ← List.append_assoc] at content
  have place : before.offset =
      ((front.flatMap Writing.segments).flatMap
        (Segment.render (wordAfter addresses times))).length := by
    rw [Segment.length_flatMap_render]
    exact (madeOf_of_ofWritings written).offset_eq
  rw [place, ← Segment.length_render (wordAfter addresses times) segment]
  exact Image.fieldBytes_eq content

/-- What applying the relocations of an image once more reports. -/
theorem report (resolvable : Resolvable addresses writings)
    (wide : ∀ segment ∈ writings.flatMap Writing.segments, segment.IsWide)
    (before : RelocatedTo addresses writings times image) :
    ∃ after report, image.applyRelocations = .ok (after, report) ∧
      (report = none ∨ ∃ value line, .check value line ∈ writings ∧
        report = some (.operand line (Text.ascii "data") .dataRange)) := by
  obtain ⟨patched, done, -⟩ := exists_patchAll before.data
    before.relocations before.masked wide
  simp only [applyRelocations, before.unresolved? resolvable, done]
  split
  · next check found =>
    have kept := before.checks check (Array.mem_of_find?_eq_some found)
    exact ⟨_, _, rfl, .inr ⟨check.value, check.line, kept, rfl⟩⟩
  · exact ⟨_, _, rfl, .inl rfl⟩

end RelocatedTo

theorem exists_relocated (resolvable : Resolvable addresses writings)
    (masked : ∀ writing ∈ writings, writing.HasMask)
    (wide : ∀ segment ∈ writings.flatMap Writing.segments, segment.IsWide)
    (times : Nat) :
    ∃ image, relocated addresses writings times = .ok image ∧
      RelocatedTo addresses writings times image := by
  induction times with
  | zero =>
      obtain ⟨image, written⟩ := (exists_ofWritings_iff writings).2 masked
      have madeOf := madeOf_of_ofWritings written
      have checks := mem_checks_of_ofWritings written
      refine ⟨{ image with symbols := addresses }, ?_, rfl, checks,
        madeOf.relocations, madeOf.masked, ?_⟩
      · rw [relocated, written]
        rfl
      · rw [wordAfter_zero]
        exact madeOf.data
  | succ times inductionHypothesis =>
      obtain ⟨image, found, before⟩ := inductionHypothesis
      obtain ⟨after, applied, relocatedTo⟩ := before.relocate resolvable wide
      refine ⟨after, ?_, relocatedTo⟩
      rw [relocated, found]
      exact applied

end

/-- A field has these many bytes, the lowest first, and reads as a word cut
off at its end. -/
structure Reads (data : Array UInt8) (offset size : Nat)
    (word : UInt64) : Prop where
  bytes : fieldBytes data offset size = LittleEndian.digits size word.toNat
  masked : (LittleEndian.read (fieldBytes data offset size)).toNat =
    word.toNat % 2 ^ (8 * size)

theorem reads_of_write {data : Array UInt8} {offset size : Nat}
    {word : UInt64}
    (written : fieldBytes data offset size = LittleEndian.write size word) :
    Reads data offset size word := by
  constructor
  · rw [written, LittleEndian.write_eq_digits]
  · rw [written, LittleEndian.toNat_read_write]

/-- Every integer has a width below 2⁶⁰ bytes, of which bits can be counted. -/
def Countable (writings : List Writing) : Prop :=
  ∀ value width line, .integer value width line ∈ writings →
    0 ≤ width.bytes ∧ width.bytes < 2 ^ 60

theorem Countable.hasMask {writings : List Writing}
    (countable : Countable writings) :
    ∀ writing ∈ writings, writing.HasMask := by
  intro writing member
  cases writing with
  | bytes content => trivial
  | check value line => trivial
  | integer value width line =>
      obtain ⟨nonnegative, bounded⟩ := countable value width line member
      rw [Writing.HasMask, Width.mask?_of_lt nonnegative bounded]
      rfl

theorem Countable.isWide {writings : List Writing}
    (countable : Countable writings) :
    ∀ segment ∈ writings.flatMap Writing.segments, segment.IsWide := by
  intro segment member
  obtain ⟨writing, inWritings, added⟩ := List.mem_flatMap.1 member
  cases writing with
  | check value line => cases added
  | bytes content =>
      rw [List.mem_singleton.1 added]
      trivial
  | integer value width line =>
      rw [List.mem_singleton.1 added]
      exact fun _ => (countable value width line inWritings).1

/--
What an image holds after its relocations have been applied some times.

Every place is given by what was written before.
-/
structure FieldLaw (addresses : Table Int) (writings : List Writing)
    (times : Nat) (image : Image) : Prop where
  bytes : ∀ front content back, writings = front ++ .bytes content :: back →
    ∃ before, ofWritings front = .ok before ∧
      fieldBytes image.data before.offset content.length = content
  fields : ∀ front value width line back,
    writings = front ++ .integer value width line :: back →
      ∃ before, ofWritings front = .ok before ∧
        Reads image.data before.offset width.size
          (Int64.ofInt (exactAfter addresses times value)).toUInt64
  /-- After the first time, fields hold the values of their integers. -/
  resolved : times = 1 → ∀ front value width line back,
    writings = front ++ .integer value width line :: back →
      ∃ before word, ofWritings front = .ok before ∧
        value.resolve addresses = (word, true) ∧
          Reads image.data before.offset width.size word.toUInt64
  /-- The next time, all that can be reported is a check that fails. -/
  report : ∃ after report, image.applyRelocations = .ok (after, report) ∧
    (report = none ∨ ∃ value line, .check value line ∈ writings ∧
      report = some (.operand line (Text.ascii "data") .dataRange))

/--
However often relocations are applied, and whether or not checks fail, there
is an image, and every field holds its base plus as many times what its
labels add up to.
-/
theorem relocated_fieldLaw {addresses : Table Int} {writings : List Writing}
    (known : ∀ value width line, .integer value width line ∈ writings →
      ∀ label, value.coefficient label ≠ 0 →
        addresses.contains label = true)
    (countable : ∀ value width line,
      .integer value width line ∈ writings →
        0 ≤ width.bytes ∧ width.bytes < 2 ^ 60)
    (times : Nat) :
    ∃ image, relocated addresses writings times = .ok image ∧
      FieldLaw addresses writings times image := by
  have masked := Countable.hasMask countable
  have wide := Countable.isWide countable
  obtain ⟨image, found, after⟩ := exists_relocated known masked wide times
  have place : ∀ front writing back, writings = front ++ writing :: back →
      ∃ before, ofWritings front = .ok before := by
    intro front writing back split
    refine (exists_ofWritings_iff front).2 fun earlier member => ?_
    refine masked earlier ?_
    rw [split]
    exact List.mem_append_left _ member
  have field : ∀ front value width line back,
      writings = front ++ .integer value width line :: back →
        ∃ before, ofWritings front = .ok before ∧
          Reads image.data before.offset width.size
            (wordAfter addresses times value) := by
    intro front value width line back split
    have member : Writing.integer value width line ∈ writings := by
      rw [split]
      exact List.mem_append_right front List.mem_cons_self
    obtain ⟨nonnegative, bounded⟩ := countable value width line member
    obtain ⟨before, written⟩ := place front _ back split
    refine ⟨before, written, reads_of_write ?_⟩
    rw [← Width.holding_of_lt nonnegative bounded]
    exact after.fieldBytes_eq split rfl written
  refine ⟨image, found, ?_⟩
  constructor
  case bytes =>
    intro front content back split
    obtain ⟨before, written⟩ := place front _ back split
    exact ⟨before, written, after.fieldBytes_eq split rfl written⟩
  case fields => exact field
  case resolved =>
    rintro rfl front value width line back split
    have member : Writing.integer value width line ∈ writings := by
      rw [split]
      exact List.mem_append_right front List.mem_cons_self
    obtain ⟨word, resolves, same⟩ :=
      wordAfter_one (known value width line member)
    obtain ⟨before, written, reads⟩ := field front value width line back split
    exact ⟨before, word, written, resolves, same ▸ reads⟩
  case report => exact after.report known wide

/-- The address of one label twice, less that of another, plus 250. -/
def doubledLessOther : SymInt :=
  ⟨250, Table.ofList [(Text.ascii "x", 2), (Text.ascii "y", -1),
    (Text.ascii "unused", 0)]⟩

/-- A short and a long field of a value that has to be a byte. -/
def checkedFields : List Writing :=
  [.bytes [0xaa], .check doubledLessOther 3,
    .integer doubledLessOther .byte 3, .integer doubledLessOther ⟨9⟩ 3,
    .bytes [0xbb]]

theorem of_mem_checkedFields {value : SymInt} {width : Width} {line : Int}
    (member : .integer value width line ∈ checkedFields) :
    value = doubledLessOther ∧ (width = .byte ∨ width = ⟨9⟩) := by
  simp only [checkedFields, List.mem_cons, reduceCtorEq,
    Writing.integer.injEq, List.not_mem_nil, false_or, or_false] at member
  rcases member with ⟨same, narrow, -⟩ | ⟨same, wide, -⟩
  · exact ⟨same, .inl narrow⟩
  · exact ⟨same, .inr wide⟩

/-- The fields are filled in twice although the check fails. -/
theorem checkedFields_relocatedTwice :
    (relocated (Table.ofList [(Text.ascii "x", 300), (Text.ascii "y", 5)])
        checkedFields 1 >>= applyRelocations).map Prod.snd =
      .ok (some (.operand 3 (Text.ascii "data") .dataRange)) ∧
    ∃ image,
      relocated (Table.ofList [(Text.ascii "x", 300), (Text.ascii "y", 5)])
        checkedFields 2 = .ok image ∧
      FieldLaw (Table.ofList [(Text.ascii "x", 300), (Text.ascii "y", 5)])
        checkedFields 2 image := by
  refine ⟨by decide +kernel, relocated_fieldLaw ?_ ?_ 2⟩
  · intro value width line member
    obtain ⟨rfl, -⟩ := of_mem_checkedFields member
    exact SymInt.known_iff_terms.2 (by decide)
  · intro value width line member
    obtain ⟨-, rfl | rfl⟩ := of_mem_checkedFields member <;> decide

/-- The first width whose bits can no longer be counted. -/
def uncountedField : Writing :=
  .integer (.constant 0) ⟨2 ^ 60⟩ 1

/-- There is no image with a field whose bits cannot be counted. -/
theorem uncountedField_notRelocated :
    (0 : Int) ≤ 2 ^ 60 ∧
      (∀ label, (SymInt.constant 0).coefficient label = 0) ∧
      ¬∃ image, relocated ∅ [uncountedField] 0 = .ok image ∧
        FieldLaw ∅ [uncountedField] 0 image := by
  refine ⟨by decide, fun _ => rfl, ?_⟩
  have broken : relocated ∅ [uncountedField] 0 = .error .negativeShift := by
    decide +kernel
  rw [broken]
  rintro ⟨image, ⟨⟩, -⟩

end Image

end FlatAsm
