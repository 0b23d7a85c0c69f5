import FlatAsm.Assembler
import FlatAsm.Proofs.ImageSegments
import FlatAsm.Proofs.ParserRuns
import Mathlib.Data.List.Induction

/-!
# The layout of items

What a layout holds after some items is said here in terms of these items
alone: the segments of its image are those of the codes, one after the other,
and a label stands for the total size of the codes before it.
-/

namespace FlatAsm

/-- Does the item declare the label? -/
def Item.declares (name : Text) : Item → Bool
  | .label _ declared => declared = name
  | .instruction _ => false

/-- The line and the code of an instruction. -/
def Item.emission? : Item → Option (Int × Code)
  | .label _ _ => none
  | .instruction content =>
      match content.encode with
      | .error _ => none
      | .ok code => some (content.line, code)

namespace Items

/-- The codes of the instructions and their lines, in order. -/
def emissions (items : List Item) : List (Int × Code) :=
  items.filterMap Item.emission?

/-- The codes of the instructions, in order. -/
def codes (items : List Item) : List Code :=
  (emissions items).map Prod.snd

/-- The size of all codes together. -/
def size (items : List Item) : Int :=
  ((codes items).map Code.size).sum

/-- Is the label declared by one of the items? -/
def declares (items : List Item) (name : Text) : Bool :=
  items.any (Item.declares name)

/-- The size of what precedes the declaration of a label. -/
def address (items : List Item) (name : Text) : Int :=
  size (items.takeWhile fun item => !item.declares name)

/-- The segments of all codes together. -/
def segments (items : List Item) : List Segment :=
  (emissions items).flatMap fun emission =>
    emission.2.segments emission.1

/-- The values to be checked at the end and their lines, in order. -/
def checkedValues (items : List Item) : List (Int × SymInt) :=
  (emissions items).flatMap fun emission =>
    emission.2.checkedValues.map fun value => (emission.1, value)

@[simp]
theorem emissions_append (front back : List Item) :
    emissions (front ++ back) = emissions front ++ emissions back :=
  List.filterMap_append

@[simp]
theorem emissions_label (line : Int) (name : Text) :
    emissions [.label line name] = [] :=
  rfl

theorem emissions_instruction {content : Instruction} {code : Code}
    (encoded : content.encode = .ok code) :
    emissions [.instruction content] = [(content.line, code)] := by
  simp [emissions, Item.emission?, encoded]

theorem declares_append (front back : List Item) (name : Text) :
    declares (front ++ back) name =
      (declares front name || declares back name) :=
  List.any_append

theorem declares_iff {items : List Item} {name : Text} :
    declares items name = true ↔ ∃ line, Item.label line name ∈ items := by
  rw [declares, List.any_eq_true]
  constructor
  · rintro ⟨item, member, declared⟩
    cases item with
    | label line other =>
        have same : other = name := by
          simpa [Item.declares] using declared
        exact ⟨line, same ▸ member⟩
    | instruction content => cases declared
  · rintro ⟨line, member⟩
    exact ⟨_, member, by simp [Item.declares]⟩

/-- A place among items is the last one, or one among those before. -/
theorem concat_eq_append_cons_iff {items front back : List Item}
    {last item : Item} :
    items ++ [last] = front ++ item :: back ↔
      (back = [] ∧ items = front ∧ last = item) ∨
        ∃ rest, back = rest ++ [last] ∧ items = front ++ item :: rest := by
  constructor
  · intro split
    rcases List.eq_nil_or_concat back with rfl | ⟨rest, final, rfl⟩
    · obtain ⟨same, equal⟩ := List.append_inj' split rfl
      exact .inl ⟨rfl, same, List.singleton_inj.1 equal⟩
    · rw [List.concat_eq_append, ← List.cons_append,
        ← List.append_assoc] at split
      obtain ⟨same, equal⟩ := List.append_inj' split rfl
      refine .inr ⟨rest, ?_, same⟩
      rw [List.concat_eq_append, equal]
  · rintro (⟨rfl, rfl, rfl⟩ | ⟨rest, rfl, rfl⟩)
    · rfl
    · simp

/-- Items that follow do not move a label. -/
theorem address_append_of_declares {front : List Item} {name : Text}
    (declared : declares front name = true) (back : List Item) :
    address (front ++ back) name = address front name := by
  have same :
      (front ++ back).takeWhile (fun item => !item.declares name) =
        front.takeWhile (fun item => !item.declares name) := by
    induction front with
    | nil => cases declared
    | cons item rest inductionHypothesis =>
        rw [List.cons_append, List.takeWhile_cons, List.takeWhile_cons]
        split
        · next silent =>
          have later : declares rest name = true := by
            have quiet : item.declares name = false := by
              simpa using silent
            simpa [declares, quiet] using declared
          rw [inductionHypothesis later]
        · rfl
  rw [address, address, same]

/-- A label that is new stands for the size of all before it. -/
theorem address_declaration {front : List Item} {name : Text}
    (fresh : declares front name = false) (line : Int)
    (back : List Item) :
    address (front ++ .label line name :: back) name = size front := by
  have none : ∀ item ∈ front, (!item.declares name) = true := by
    intro item member
    have silent := List.any_eq_false.1 fresh item member
    simpa using silent
  rw [address, List.takeWhile_append_of_pos none]
  simp [Item.declares]

end Items

/-! ## Codes of the machine -/

namespace Operation

theorem registers_supported {register : Register}
    (known : register ∈ Register.all) :
    register.width.isSupported = true := by
  revert register
  decide

/-- The machine has the width of an operand on its own. -/
theorem width_supported {default width : Width} {operand : Operand}
    (supported : default.isSupported = true)
    (ofMachine : operand.OfMachine) (hasWidth : operand.HasWidth width)
    (fallback : operand.register? = none → width = default) :
    width.isSupported = true := by
  cases named : operand.register? with
  | none => exact fallback named ▸ supported
  | some register =>
      exact hasWidth register named ▸
        registers_supported (ofMachine.registers register named)

theorem fields_supported {operand : Operand} {width : Width}
    (supported : width.isSupported = true) :
    ∀ field ∈ operand.fields width, field.width.isSupported = true := by
  intro field member
  rw [Operand.fields] at member
  split at member
  · cases member
  · rw [List.mem_singleton.1 member]
    exact supported

/-- Fields are as wide as the operation, and the machine has that width. -/
theorem encode_supported {default : Width} {operation : Operation}
    {code : Code} (supported : default.isSupported = true)
    (ofMachine : operation.OfMachine default)
    (encoded : operation.encode = .ok code) :
    ∀ field ∈ code.fields, field.width.isSupported = true := by
  cases ofMachine with
  | data =>
      simp only [encode] at encoded
      split at encoded
      · cases encoded
      · cases encoded
        intro field member
        obtain ⟨item, -, rfl⟩ := List.mem_map.1 member
        rfl
  | jump =>
      cases encoded
      intro field member
      rw [List.mem_singleton.1 member]
      exact supported
  | reversible _ _ _ _ rightOfMachine rightWidth =>
      cases encoded
      exact fields_supported
        (rightWidth ▸ registers_supported rightOfMachine)
  | @unary _ _ operand _ _ operandOfMachine operandWidth fallback =>
      cases encoded
      exact fields_supported
        (width_supported supported operandOfMachine operandWidth fallback)
  | nullary =>
      cases encoded
      intro field member
      cases member

end Operation

theorem Instruction.encode_eq_ok_iff {content : Instruction}
    {code : Code} :
    content.encode = .ok code ↔ content.operation.encode = .ok code := by
  rw [Instruction.encode]
  cases content.operation.encode <;> simp

theorem Width.size_of_isSupported {width : Width}
    (supported : width.isSupported = true) :
    (width.size : Int) = width.bytes := by
  rcases Bool.or_eq_true_iff.1 supported with byte | word
  · rw [of_decide_eq_true byte]
    rfl
  · rw [of_decide_eq_true word]
    rfl

theorem Width.size_le_of_isSupported {width : Width}
    (supported : width.isSupported = true) : width.size ≤ 8 := by
  rcases Bool.or_eq_true_iff.1 supported with byte | word
  · rw [of_decide_eq_true byte]
    decide
  · rw [of_decide_eq_true word]
    decide

theorem Code.foldr_bytes_eq (line start : Int) {fields : List Field}
    (supported : ∀ field ∈ fields, field.width.isSupported = true) :
    fields.foldr (fun field total => field.width.bytes + total) start =
      start + (((fields.map fun field =>
        (Segment.field field.value field.width line)).map
          Segment.size).sum : Nat) := by
  induction fields with
  | nil => simp
  | cons field rest inductionHypothesis =>
      have here := Width.size_of_isSupported
        (supported field List.mem_cons_self)
      rw [List.foldr_cons, inductionHypothesis fun other member =>
        supported other (List.mem_cons_of_mem _ member)]
      simp only [List.map_cons, List.sum_cons, Segment.size]
      omega

/-- The code takes as many bytes as its size says. -/
theorem Code.size_eq_segments {code : Code} (line : Int)
    (supported : ∀ field ∈ code.fields,
      field.width.isSupported = true) :
    code.size = (((code.segments line).map Segment.size).sum : Nat) := by
  rw [Code.size, Code.foldr_bytes_eq line _ supported, Code.segments]
  simp [Segment.size]

/-! ## Laying items out -/

theorem Code.isWide_of_supported {code : Code} (line : Int)
    (supported : ∀ field ∈ code.fields,
      field.width.isSupported = true) :
    ∀ segment ∈ code.segments line, segment.IsWide := by
  refine List.forall_mem_cons.2 ⟨trivial, ?_⟩
  intro segment member
  obtain ⟨field, inFields, rfl⟩ := List.mem_map.1 member
  exact fun _ =>
    (Width.bounds_of_isSupported (supported field inFields)).1

/-- An instruction is laid out if it has code and its fields have masks. -/
theorem Layout.append_eq_ok_iff {layout after : Layout}
    {content : Instruction} :
    layout.append content = .ok after ↔
      ∃ code image, content.encode = .ok code ∧
        layout.image.emit code content.line = .ok image ∧
        after = ⟨image, layout.statements.push
          ⟨content.line, layout.image.offset, content, code⟩⟩ := by
  rw [append]
  cases content.encode with
  | error fault => simp
  | ok code =>
      cases emitted : layout.image.emit code content.line with
      | error reason => simp [emitted]
      | ok image => simp [emitted, eq_comm]

theorem Layout.exists_append_iff {layout : Layout}
    {content : Instruction} :
    (∃ after, layout.append content = .ok after) ↔
      ∃ code, content.encode = .ok code ∧ code.HasMasks := by
  simp only [append_eq_ok_iff]
  constructor
  · rintro ⟨after, code, image, encoded, emitted, -⟩
    exact ⟨code, encoded,
      (Image.exists_emit_iff _ code content.line).1 ⟨image, emitted⟩⟩
  · rintro ⟨code, encoded, masks⟩
    obtain ⟨image, emitted⟩ :=
      (Image.exists_emit_iff layout.image code content.line).2 masks
    exact ⟨_, code, image, encoded, emitted, rfl⟩

/-- The layout is what these items come to. -/
structure LaidOut (items : List Item) (layout : Layout) : Prop where
  encodes : ∀ content, Item.instruction content ∈ items →
    ∃ code, content.encode = .ok code
  madeOf : layout.image.MadeOf (Items.segments items)
  wide : ∀ segment ∈ Items.segments items, segment.IsWide
  checked : layout.image.checkedValues = Items.checkedValues items
  sizes : (layout.image.offset : Int) = Items.size items
  fresh : ∀ front line name back,
    items = front ++ .label line name :: back →
      Items.declares front name = false
  symbols : ∀ name, layout.image.symbols.find? name =
    if Items.declares items name = true then
      some (Items.address items name)
    else none

namespace LaidOut

theorem empty : LaidOut [] Layout.empty where
  encodes := by simp
  madeOf := Image.MadeOf.empty
  wide := nofun
  checked := rfl
  sizes := rfl
  fresh := by simp
  symbols := by simp [Layout.empty, Image.empty, Items.declares]

theorem contains_eq {items : List Item} {layout : Layout}
    (laidOut : LaidOut items layout) (name : Text) :
    layout.image.symbols.contains name = Items.declares items name := by
  rw [Table.contains, laidOut.symbols]
  split
  · next declared => exact declared.symm
  · next absent => exact (Bool.eq_false_iff.2 absent).symm

/-- What a label declaration leaves behind. -/
theorem declare {constants : Table Int64} {items : List Item}
    {layout layout' : Layout} {line : Int} {name : Text}
    (laidOut : LaidOut items layout)
    (placed : layout.declare constants line name = .ok layout') :
    LaidOut (items ++ [.label line name]) layout' := by
  unfold Layout.declare at placed
  split at placed
  · cases placed
  · next unknown =>
    cases placed
    have absent : Items.declares items name = false := by
      rw [← laidOut.contains_eq]
      simp only [Bool.or_eq_true, not_or, Bool.not_eq_true] at unknown
      exact unknown.1
    constructor
    case encodes =>
      intro content member
      simp only [List.mem_append, List.mem_singleton, reduceCtorEq,
        or_false] at member
      exact laidOut.encodes content member
    case madeOf =>
      have unchanged : Items.segments (items ++ [.label line name]) =
          Items.segments items := by
        simp [Items.segments]
      rw [unchanged]
      exact ⟨laidOut.madeOf.data, laidOut.madeOf.relocations,
        laidOut.madeOf.masked⟩
    case wide =>
      have unchanged : Items.segments (items ++ [.label line name]) =
          Items.segments items := by
        simp [Items.segments]
      rw [unchanged]
      exact laidOut.wide
    case checked =>
      have unchanged : Items.checkedValues (items ++ [.label line name]) =
          Items.checkedValues items := by
        simp [Items.checkedValues]
      rw [unchanged]
      exact laidOut.checked
    case sizes =>
      have unchanged : Items.size (items ++ [.label line name]) =
          Items.size items := by
        simp [Items.size, Items.codes]
      rw [unchanged]
      exact laidOut.sizes
    case fresh =>
      intro front otherLine other back split
      rcases Items.concat_eq_append_cons_iff.1 split with
        ⟨-, rfl, ⟨⟩⟩ | ⟨rest, -, earlier⟩
      · exact absent
      · exact laidOut.fresh front otherLine other rest earlier
    case symbols =>
      intro other
      simp only [Image.define, Table.find?_insert, laidOut.symbols,
        laidOut.sizes, Items.declares_append]
      by_cases same : other = name
      · subst same
        have here := Items.address_declaration absent line []
        simp [Items.declares, Item.declares, here]
      · have elsewhere : Items.declares [.label line name] other =
            false := by
          simp [Items.declares, Item.declares, Ne.symm same]
        simp only [same, if_false, elsewhere, Bool.or_false]
        split
        · next declared =>
          rw [Items.address_append_of_declares declared]
        · rfl

/-- What the code of an instruction leaves behind. -/
theorem append {default : Width} {items : List Item}
    {layout layout' : Layout} {content : Instruction}
    (supported : default.isSupported = true)
    (ofMachine : content.operation.OfMachine default)
    (laidOut : LaidOut items layout)
    (placed : layout.append content = .ok layout') :
    LaidOut (items ++ [.instruction content]) layout' := by
  obtain ⟨code, image, encoded, emitted, rfl⟩ :=
    Layout.append_eq_ok_iff.1 placed
  have made := laidOut.madeOf.emit emitted
  have added := Items.emissions_instruction encoded
  have widths := Operation.encode_supported supported ofMachine
    (Instruction.encode_eq_ok_iff.1 encoded)
  have segments : Items.segments (items ++ [.instruction content]) =
      Items.segments items ++ code.segments content.line := by
    simp [Items.segments, added]
  constructor
  case encodes =>
    intro other member
    rcases List.mem_append.1 member with earlier | last
    · exact laidOut.encodes other earlier
    · cases List.mem_singleton.1 last
      exact ⟨code, encoded⟩
  case madeOf =>
    rw [segments]
    exact made
  case wide =>
    rw [segments]
    exact List.forall_mem_append.2
      ⟨laidOut.wide, Code.isWide_of_supported content.line widths⟩
  case checked =>
    simp [Image.checkedValues_emit emitted, laidOut.checked,
      Items.checkedValues, added]
  case sizes =>
    have codeSize := Code.size_eq_segments content.line widths
    have before := laidOut.sizes
    rw [laidOut.madeOf.offset_eq] at before
    rw [made.offset_eq]
    simp only [Items.size, Items.codes, Items.emissions_append, added,
      List.map_append, List.sum_append, List.map_cons, List.map_nil,
      List.sum_cons, List.sum_nil, Int.natCast_add] at before ⊢
    omega
  case fresh =>
    intro front line name back split
    rcases Items.concat_eq_append_cons_iff.1 split with
      ⟨-, -, ⟨⟩⟩ | ⟨rest, -, earlier⟩
    exact laidOut.fresh front line name rest earlier
  case symbols =>
    intro name
    have same : Items.declares (items ++ [.instruction content]) name =
        Items.declares items name := by
      simp [Items.declares, Item.declares]
    simp only [Image.symbols_emit emitted, laidOut.symbols, same]
    split
    · next declared =>
      rw [Items.address_append_of_declares declared]
    · rfl

theorem place {default : Width} {constants : Table Int64}
    {items : List Item} {layout layout' : Layout} {item : Item}
    (supported : default.isSupported = true)
    (ofMachine : item.OfMachine default)
    (laidOut : LaidOut items layout)
    (placed : layout.place constants item = .ok layout') :
    LaidOut (items ++ [item]) layout' := by
  cases item with
  | label line name => exact laidOut.declare placed
  | instruction content => exact laidOut.append supported ofMachine placed

end LaidOut

theorem Layout.ofItems_concat (constants : Table Int64)
    (items : List Item) (item : Item) :
    Layout.ofItems constants (items ++ [item]) =
      (Layout.ofItems constants items).bind fun layout =>
        layout.place constants item := by
  rw [ofItems, foldlM_concat]
  rfl

/-- Laying items out gives the layout that they come to. -/
theorem LaidOut.ofItems {default : Width} {constants : Table Int64}
    {items : List Item} {layout : Layout}
    (supported : default.isSupported = true)
    (ofMachine : ∀ item ∈ items, item.OfMachine default)
    (placed : Layout.ofItems constants items = .ok layout) :
    LaidOut items layout := by
  induction items using List.reverseRecOn generalizing layout with
  | nil =>
      cases placed
      exact LaidOut.empty
  | append_singleton items item inductionHypothesis =>
      rw [Layout.ofItems_concat] at placed
      obtain ⟨before, earlier, last⟩ := bind_eq_ok_iff.1 placed
      have laidOut := inductionHypothesis
        (fun other member => ofMachine other (by simp [member])) earlier
      exact laidOut.place supported (ofMachine item (by simp)) last

end FlatAsm
