import FlatAsm.Proofs.AssemblyOutcome
import FlatAsm.Proofs.ImageHistory

/-!
# What applying relocations does

Relocations are applied in three passes: all labels are looked up, then all
fields are filled in, then all checks are made.  The first pass comes before
the others, so an image whose labels do not all have addresses is left as it
is.  Whatever is reported, only bytes in the fields of relocations change.
No pass breaks off, because the fields of relocations lie in the image.

A check may be of a value that was never written, so that one of its labels
has no address although all relocations have theirs.  The sum of the terms
before that label counts then.
-/

namespace FlatAsm

/-- The entry is the first one with the property. -/
def IsFirst {α : Type} (property : α → Prop) (entries : List α)
    (entry : α) : Prop :=
  ∃ front back, entries = front ++ entry :: back ∧ property entry ∧
    ∀ earlier ∈ front, ¬property earlier

theorem IsFirst.mem {α : Type} {property : α → Prop} {entries : List α}
    {entry : α} (first : IsFirst property entries entry) :
    entry ∈ entries ∧ property entry := by
  rcases first with ⟨front, back, rfl, holds, -⟩
  exact ⟨List.mem_append_right front List.mem_cons_self, holds⟩

section

variable {α : Type} {test : α → Bool} {property : α → Prop}
  {entries : Array α}

theorem find?_of_isFirst
    (agree : ∀ entry, test entry = true ↔ property entry) {entry : α}
    (first : IsFirst property entries.toList entry) :
    entries.find? test = some entry := by
  rcases first with ⟨front, back, split, holds, earlier⟩
  rw [← Array.find?_toList, List.find?_eq_some_iff_append]
  refine ⟨(agree entry).2 holds, front, back, split, ?_⟩
  intro other member
  rw [Bool.not_eq_true', ← Bool.not_eq_true, agree]
  exact earlier other member

theorem find?_of_forall
    (agree : ∀ entry, test entry = true ↔ property entry)
    (none : ∀ entry ∈ entries, ¬property entry) :
    entries.find? test = .none := by
  rw [Array.find?_eq_none]
  intro entry member
  rw [agree]
  exact none entry member

theorem exists_isFirst_or_forall (property : α → Prop)
    (entries : List α) :
    (∃ entry, IsFirst property entries entry) ∨
      ∀ entry ∈ entries, ¬property entry := by
  induction entries with
  | nil => exact .inr nofun
  | cons head rest inductionHypothesis =>
      by_cases holds : property head
      · exact .inl ⟨head, [], rest, rfl, holds, nofun⟩
      · rcases inductionHypothesis with
          ⟨entry, front, back, rfl, found, earlier⟩ | none
        · exact .inl ⟨entry, head :: front, back, rfl, found,
            List.forall_mem_cons.2 ⟨holds, earlier⟩⟩
        · exact .inr (List.forall_mem_cons.2 ⟨holds, none⟩)

end

/-! ## Sums that stop short -/

namespace SymInt

/-- The base and the terms before the first label without an address. -/
def partialSum (addresses : Table Int) (value : SymInt) : Int64 :=
  value.base + weightedSum (addressWord addresses)
    (value.terms.takeWhile fun term => addresses.contains term.1)

theorem resolveTerms_fst (addresses : Table Int) (sum : Int64)
    (entries : List (Text × Int64)) :
    (resolveTerms addresses sum entries).1 =
      sum + weightedSum (addressWord addresses)
        (entries.takeWhile fun entry => addresses.contains entry.1) := by
  fun_induction resolveTerms addresses sum entries with
  | case1 sum => simp
  | case2 sum label factor rest absent =>
      simp [Table.contains, absent]
  | case3 sum label factor rest address found inductionHypothesis =>
      have present : addresses.contains label = true := by
        rw [Table.contains, found, Option.isSome_some]
      rw [inductionHypothesis, List.takeWhile_cons, if_pos present,
        weightedSum_cons, addressWord, found, Option.getD_some,
        Int64.add_assoc]

theorem resolve_fst (addresses : Table Int) (value : SymInt) :
    (value.resolve addresses).1 = value.partialSum addresses :=
  resolveTerms_fst addresses value.base value.terms

end SymInt

/-! ## Bytes outside of fields -/

namespace Image

theorem getElem?_overwrite {data : Array UInt8} {offset position : Nat}
    {bytes : List UInt8}
    (outside : position < offset ∨ offset + bytes.length ≤ position) :
    (overwrite data offset bytes)[position]? = data[position]? := by
  induction bytes generalizing data offset with
  | nil => rfl
  | cons byte rest inductionHypothesis =>
      rw [List.length_cons] at outside
      rw [overwrite, inductionHypothesis (by omega),
        Array.getElem?_setIfInBounds_ne (by omega)]

/-- Filling in fields changes no byte outside of them. -/
theorem getElem?_of_foldlM_patch {symbols : Table Int} {position : Nat}
    {relocations : List Relocation} {data patched : Array UInt8}
    (done : relocations.foldlM (patch symbols) data = .ok patched)
    (outside : ∀ relocation ∈ relocations,
      position < relocation.offset ∨
        relocation.offset + relocation.width.size ≤ position) :
    patched[position]? = data[position]? := by
  refine foldlM_induction (motive := fun _ patched =>
    patched[position]? = data[position]?) done rfl ?_
  intro front relocation before after member kept further
  obtain ⟨-, rfl⟩ := patch_eq_ok_iff.1 further
  rw [← kept]
  apply getElem?_overwrite
  rw [Width.length_holding]
  exact outside relocation member

theorem getElem?_of_patchAll {image after : Image} {position : Nat}
    (patched : image.patchAll = .ok after)
    (outside : ∀ relocation ∈ image.relocations,
      position < relocation.offset ∨
        relocation.offset + relocation.width.size ≤ position) :
    after.data[position]? = image.data[position]? := by
  obtain ⟨data, done, rfl⟩ := patchAll_eq_ok_iff.1 patched
  apply getElem?_of_foldlM_patch done
  intro relocation member
  exact outside relocation (Array.mem_def.2 member)

/-! ## What is reported -/

/-- The label of a relocation has no address. -/
def Missing (image : Image) (relocation : Relocation) : Prop :=
  image.symbols.find? relocation.symbol = none

/-- A value to be checked is no byte, as far as it can be summed up. -/
def OutOfRange (image : Image) (check : ByteCheck) : Prop :=
  ¬IsByte (check.value.partialSum image.symbols)

theorem not_contains_iff_missing (image : Image) (relocation : Relocation) :
    (!image.symbols.contains relocation.symbol) = true ↔
      image.Missing relocation := by
  rw [Bool.not_eq_true', Table.contains, Option.isSome_eq_false_iff,
    Option.isNone_iff_eq_none, Missing]

theorem failsCheck_iff_outOfRange (image : Image) (check : ByteCheck) :
    image.failsCheck check = true ↔ image.OutOfRange check := by
  rw [OutOfRange, not_isByte_iff, ← SymInt.resolve_fst, failsCheck]

section

variable {image patched : Image}

theorem applyRelocations_of_missing {relocation : Relocation}
    (first : IsFirst image.Missing image.relocations.toList relocation) :
    image.applyRelocations =
      .ok (image,
        some (.labelMissing relocation.line relocation.symbol)) := by
  have found : image.unresolved? = some relocation :=
    find?_of_isFirst (not_contains_iff_missing image) first
  simp only [applyRelocations, found]

theorem unresolved?_of_known
    (known : ∀ relocation ∈ image.relocations,
      ¬image.Missing relocation) : image.unresolved? = none :=
  find?_of_forall (not_contains_iff_missing image) known

theorem applyRelocations_of_outOfRange
    (known : ∀ relocation ∈ image.relocations, ¬image.Missing relocation)
    (done : image.patchAll = .ok patched) {check : ByteCheck}
    (first : IsFirst image.OutOfRange image.checks.toList check) :
    image.applyRelocations = .ok (patched,
      some (.operand check.line (Text.ascii "data") .dataRange)) := by
  have found := find?_of_isFirst (failsCheck_iff_outOfRange image) first
  simp only [applyRelocations, unresolved?_of_known known, done, found]

theorem applyRelocations_of_inRange
    (known : ∀ relocation ∈ image.relocations, ¬image.Missing relocation)
    (done : image.patchAll = .ok patched)
    (inRange : ∀ check ∈ image.checks, ¬image.OutOfRange check) :
    image.applyRelocations = .ok (patched, none) := by
  have found := find?_of_forall (failsCheck_iff_outOfRange image) inRange
  simp only [applyRelocations, unresolved?_of_known known, done, found]

end

/--
Relocations are applied as a whole or not at all, and only to fields.

This is what becomes of an image, and what is reported.
-/
structure RelocatesAtomically (image after : Image)
    (report : Option Error) : Prop where
  inside : ∀ relocation ∈ image.relocations,
    relocation.offset ≤ relocation.stop ∧
      relocation.stop ≤ image.data.size
  missing_iff :
    (∃ line label, report = some (.labelMissing line label)) ↔
      ∃ relocation ∈ image.relocations, image.Missing relocation
  /-- The first label without an address is reported, and nothing changes. -/
  missing_first : ∀ relocation,
    IsFirst image.Missing image.relocations.toList relocation →
      after = image ∧
        report =
          some (.labelMissing relocation.line relocation.symbol)
  outOfRange_iff :
    (∀ relocation ∈ image.relocations, ¬image.Missing relocation) →
      ((∃ line, report =
          some (.operand line (Text.ascii "data") .dataRange)) ↔
        ∃ check ∈ image.checks, image.OutOfRange check)
  /-- Otherwise the first value that is no byte is reported. -/
  outOfRange_first :
    (∀ relocation ∈ image.relocations, ¬image.Missing relocation) →
      ∀ check, IsFirst image.OutOfRange image.checks.toList check →
        report = some (.operand check.line (Text.ascii "data") .dataRange)
  done : (∀ relocation ∈ image.relocations, ¬image.Missing relocation) →
    (∀ check ∈ image.checks, ¬image.OutOfRange check) →
      report = none
  frame : image.SameFrame after
  outside : ∀ position : Nat,
    (∀ relocation ∈ image.relocations,
      position < relocation.offset ∨ relocation.stop ≤ position) →
        after.data[position]? = image.data[position]?

/-- An image with relocations inside comes out in one of three ways. -/
theorem exists_relocatesAtomically {image patched : Image}
    (inside : ∀ relocation ∈ image.relocations,
      relocation.offset ≤ relocation.stop ∧
        relocation.stop ≤ image.data.size)
    (done : image.patchAll = .ok patched) :
    ∃ after report, image.applyRelocations = .ok (after, report) ∧
      image.RelocatesAtomically after report := by
  have missing : (∃ relocation, IsFirst image.Missing
        image.relocations.toList relocation) ∨
      ∀ relocation ∈ image.relocations, ¬image.Missing relocation := by
    simpa using exists_isFirst_or_forall image.Missing
      image.relocations.toList
  have outOfRange : (∃ check, IsFirst image.OutOfRange
        image.checks.toList check) ∨
      ∀ check ∈ image.checks, ¬image.OutOfRange check := by
    simpa using exists_isFirst_or_forall image.OutOfRange
      image.checks.toList
  have frame := sameFrame_of_patchAll done
  have outside (position : Nat)
      (away : ∀ relocation ∈ image.relocations,
        position < relocation.offset ∨ relocation.stop ≤ position) :
      patched.data[position]? = image.data[position]? := by
    apply getElem?_of_patchAll done
    intro relocation member
    have wide := (inside relocation member).1
    have apart := away relocation member
    rw [Relocation.stop] at wide apart
    rw [Width.size]
    omega
  rcases missing with ⟨relocation, first⟩ | known
  · have absent := first.mem
    have member := Array.mem_def.2 absent.1
    -- what needs all labels to be known cannot be asked for here
    have unknown (known : ∀ relocation ∈ image.relocations,
        ¬image.Missing relocation) : False :=
      known relocation member absent.2
    refine ⟨image, _, applyRelocations_of_missing first, ?_⟩
    constructor
    case inside => exact inside
    case missing_iff =>
      exact iff_of_true ⟨_, _, rfl⟩ ⟨relocation, member, absent.2⟩
    case missing_first =>
      intro other otherFirst
      have same := (applyRelocations_of_missing first).symm.trans
        (applyRelocations_of_missing otherFirst)
      exact ⟨rfl, (Prod.mk.inj (Except.ok.inj same)).2⟩
    case outOfRange_iff => exact fun known => (unknown known).elim
    case outOfRange_first => exact fun known => (unknown known).elim
    case done => exact fun known => (unknown known).elim
    case frame => exact .refl image
    case outside => exact fun _ _ => rfl
  · have resolved : ¬∃ relocation ∈ image.relocations,
        image.Missing relocation := by
      rintro ⟨relocation, member, absent⟩
      exact known relocation member absent
    have noFirst (relocation : Relocation)
        (first : IsFirst image.Missing image.relocations.toList
          relocation) : False :=
      resolved ⟨relocation, Array.mem_def.2 first.mem.1, first.mem.2⟩
    rcases outOfRange with ⟨check, first⟩ | inRange
    · have excess := first.mem
      have member := Array.mem_def.2 excess.1
      refine ⟨patched, _, applyRelocations_of_outOfRange known done first,
        ?_⟩
      constructor
      case inside => exact inside
      case missing_iff => exact iff_of_false (by simp) resolved
      case missing_first =>
        exact fun relocation first => (noFirst relocation first).elim
      case outOfRange_iff =>
        exact fun _ => iff_of_true ⟨_, rfl⟩ ⟨check, member, excess.2⟩
      case outOfRange_first =>
        intro _ other otherFirst
        have same :=
          (applyRelocations_of_outOfRange known done first).symm.trans
            (applyRelocations_of_outOfRange known done otherFirst)
        exact (Prod.mk.inj (Except.ok.inj same)).2
      case done =>
        exact fun _ inRange => (inRange check member excess.2).elim
      case frame => exact frame
      case outside => exact outside
    · refine ⟨patched, _, applyRelocations_of_inRange known done inRange,
        ?_⟩
      have allBytes : ¬∃ check ∈ image.checks, image.OutOfRange check := by
        rintro ⟨check, member, outside⟩
        exact inRange check member outside
      constructor
      case inside => exact inside
      case missing_iff => exact iff_of_false (by simp) resolved
      case missing_first =>
        exact fun relocation first => (noFirst relocation first).elim
      case outOfRange_iff => exact fun _ => iff_of_false (by simp) allBytes
      case outOfRange_first =>
        intro _ check first
        exact (allBytes
          ⟨check, Array.mem_def.2 first.mem.1, first.mem.2⟩).elim
      case done => exact fun _ _ => rfl
      case frame => exact frame
      case outside => exact outside

/--
However an image has been made, applying its relocations does not break off.
It reports the first label without an address and changes nothing, or else
fills in all fields and reports the first check that fails.  It never writes
outside of the fields.
-/
theorem ofSteps_relocatesAtomically {steps : List ImageStep}
    {image : Image}
    (wide : ∀ step ∈ steps, ∀ width ∈ step.widths, 0 ≤ width.bytes)
    (made : ofSteps steps = .ok image) :
    ∃ after report, image.applyRelocations = .ok (after, report) ∧
      image.RelocatesAtomically after report := by
  have holds := holds_of_ofSteps made
  have nonnegative (relocation : Relocation)
      (member : relocation ∈ image.relocations) :
      0 ≤ relocation.width.bytes :=
    bytes_of_mem_relocations wide made member
  obtain ⟨patched, done⟩ := holds.exists_patchAll nonnegative
  refine exists_relocatesAtomically ?_ done
  intro relocation member
  have width := nonnegative relocation member
  have bounded := (holds.fits member width).inside
  rw [Width.size] at bounded
  rw [Relocation.stop]
  omega

/-- A check of a value that no field holds, one of whose labels is missing. -/
def unwrittenCheck : List ImageStep :=
  [.write (.bytes [0xaa]), .write (.check labelSum 3),
    .write (.integer (.symbol (Text.ascii "x")) .byte 4),
    .write (.integer (.symbol (Text.ascii "x")) ⟨0⟩ 5),
    .define (Text.ascii "x") 300]

/-- The check fails for the label that is there, and the field is filled in. -/
theorem unwrittenCheck_relocatesAtomically :
    ∃ image after report, ofSteps unwrittenCheck = .ok image ∧
      image.applyRelocations = .ok (after, report) ∧
      image.RelocatesAtomically after report ∧
      after.data = #[0xaa, 44] ∧
      report = some (.operand 3 (Text.ascii "data") .dataRange) := by
  have outcome : (ofSteps unwrittenCheck >>= applyRelocations).map
      (fun relocated => (relocated.1.data, relocated.2)) =
        .ok (#[0xaa, 44],
          some (.operand 3 (Text.ascii "data") .dataRange)) := by
    decide +kernel
  obtain ⟨image, made⟩ :=
    (@exists_ofSteps_iff unwrittenCheck (by decide)).2 (by decide)
  obtain ⟨after, report, applied, atomically⟩ :=
    @ofSteps_relocatesAtomically unwrittenCheck image (by decide) made
  rw [made] at outcome
  change image.applyRelocations.map _ = _ at outcome
  rw [applied] at outcome
  obtain ⟨data, reported⟩ := Prod.mk.inj (Except.ok.inj outcome)
  exact ⟨image, after, report, made, applied, atomically, data, reported⟩

-- nothing is filled in as long as a label is missing
example :
    (ofSteps [.write (.integer (.symbol (Text.ascii "x")) .byte 4),
        .write (.integer labelSum .byte 5),
        .define (Text.ascii "x") 7] >>= applyRelocations).map Prod.snd =
      .ok (some (.labelMissing 5 (Text.ascii "y"))) := by
  decide +kernel

end Image

end FlatAsm
