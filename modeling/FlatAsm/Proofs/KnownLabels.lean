import FlatAsm.Proofs.LabelSubstitution
import FlatAsm.Proofs.ParserRuns
import FlatAsm.Proofs.ParserSteps

/-!
# Parsing with known labels

Once the addresses of labels are known they can be given to the parser as
the values of names.  It then reads the same statements, in which every label
with an address has been replaced by that address.

Expressions and arguments are parsed in the same way with and without the
addresses, up to this replacement, and they also fail alike.  Operations are
different: a count of repetitions has to be constant, which it may become by
the replacement.  So the main statement of this module is about texts without
errors only.
-/

namespace FlatAsm

/-! ## Expressions and arguments -/

namespace Parse

variable {constants : Table Int64} {addresses : Table Int}

/-- No label with an address has the name of a constant. -/
def Disjoint (constants : Table Int64) (addresses : Table Int) : Prop :=
  ∀ name, addresses.contains name = true →
    constants.contains name = false

theorem nameValue_withLabels (disjoint : Disjoint constants addresses)
    (name : Text) :
    nameValue (constants.withLabels addresses) name =
      (nameValue constants name).substitute addresses := by
  rw [nameValue, nameValue, Table.find?_withLabels]
  cases label : addresses.find? name with
  | some address =>
      have free : constants.find? name = none := by
        have absent := disjoint name (by rw [Table.contains, label]; rfl)
        simpa [Table.contains] using absent
      rw [free]
      exact (SymInt.substitute_symbol_of_find? label).symm
  | none =>
      cases constants.find? name with
      | some value => exact (SymInt.substitute_constant value).symm
      | none => exact (SymInt.substitute_symbol_of_unknown label).symm

theorem partValue?_withLabels (disjoint : Disjoint constants addresses)
    (token : Token) :
    partValue? (constants.withLabels addresses) token =
      (partValue? constants token).map (SymInt.substitute addresses) := by
  rw [partValue?, partValue?]
  cases token.kind with
  | integer number =>
      exact congrArg some (SymInt.substitute_constant number).symm
  | identifier => exact congrArg some (nameValue_withLabels disjoint _)
  | endOfText | newline | string | register | mnemonic
  | punctuation => rfl

theorem signed_substitute (negative : Bool) (value : SymInt) :
    signed negative (value.substitute addresses) =
      (signed negative value).substitute addresses := by
  cases negative with
  | false => rfl
  | true =>
      change (SymInt.constant 0).combine (-1) _ =
        ((SymInt.constant 0).combine (-1) value).substitute addresses
      rw [SymInt.substitute_combine, SymInt.substitute_constant]

theorem moveWith_substitute (value : SymInt) :
    moveWith (value.substitute addresses) =
      SymInt.substitute addresses <$> moveWith value := by
  rw [moveWith, moveWith, map_bind]
  rfl

theorem signedPart_withLabels (disjoint : Disjoint constants addresses)
    (negative : Bool) :
    signedPart (constants.withLabels addresses) negative =
      SymInt.substitute addresses <$> signedPart constants negative := by
  funext cursor
  -- every further minus sign takes a token
  induction remaining : cursor.remaining using Nat.strongRecOn
    generalizing cursor negative with
  | ind remaining inductionHypothesis =>
  rw [signedPart_eq _ negative, signedPart_eq constants negative,
    map_bind, current_bind, current_bind, partValue?_withLabels disjoint]
  cases partValue? constants cursor.current with
  | some value =>
      dsimp only [Option.map_some]
      rw [signed_substitute, moveWith_substitute]
  | none =>
      dsimp only [Option.map_none]
      split
      · next minus =>
        rw [map_bind]
        apply bind_congr_at
        intro _ after moved
        exact inductionHypothesis _ (remaining ▸ advance_remaining_lt moved
          (inside_of_isMark minus)) _ _ rfl
      · rfl

theorem joinPart?_substitute {token : Token}
    {join : SymInt → SymInt → SymInt}
    (found : joinPart? token = some join) (left right : SymInt) :
    join (left.substitute addresses) (right.substitute addresses) =
      (join left right).substitute addresses := by
  rw [joinPart?] at found
  split at found <;> cases found
  · exact (SymInt.substitute_combine left 1 right).symm
  · exact (SymInt.substitute_combine left (-1) right).symm

theorem furtherParts_withLabels (disjoint : Disjoint constants addresses)
    (value : SymInt) :
    furtherParts (constants.withLabels addresses)
        (value.substitute addresses) =
      SymInt.substitute addresses <$> furtherParts constants value := by
  funext cursor
  -- every further part takes a token
  induction remaining : cursor.remaining using Nat.strongRecOn
    generalizing cursor value with
  | ind remaining inductionHypothesis =>
  rw [furtherParts_eq _ (value.substitute addresses),
    furtherParts_eq constants value, map_bind, current_bind, current_bind]
  cases sign : joinPart? cursor.current with
  | none => rfl
  | some join =>
      dsimp only
      rw [signedPart_withLabels disjoint, map_bind]
      apply bind_congr_at
      intro _ middle moved
      rw [map_bind, bind_map_left]
      apply bind_congr_at
      intro part after found
      have fewer := Nat.lt_of_le_of_lt (signedPart_neverGrows _ _ found)
        (advance_remaining_lt moved (inside_of_joinPart? sign))
      rw [joinPart?_substitute sign]
      exact inductionHypothesis _ (remaining ▸ fewer) _ _ rfl

/-- Known labels are replaced in expressions. -/
theorem expression_withLabels (disjoint : Disjoint constants addresses) :
    expression (constants.withLabels addresses) =
      SymInt.substitute addresses <$> expression constants := by
  rw [expression, expression, signedPart_withLabels disjoint,
    bind_map_left, map_bind]
  apply bind_congr
  intro first
  exact furtherParts_withLabels disjoint first

theorem addressInside_withLabels
    (disjoint : Disjoint constants addresses) :
    addressInside (constants.withLabels addresses) =
      Operand.mapValues (SymInt.substitute addresses) <$>
        addressInside constants := by
  rw [addressInside, addressInside, expression_withLabels disjoint,
    map_bind]
  apply bind_congr
  intro token
  split
  · next pointer kind =>
    rw [map_bind]
    apply bind_congr
    intro _
    rw [map_bind]
    apply bind_congr
    intro closing
    split
    · rw [map_bind]
      rfl
    · rw [map_bind]
      apply bind_congr
      intro _
      rw [map_bind, bind_map_left]
      apply bind_congr
      intro value
      rw [map_bind]
      rfl
  · rw [map_bind, bind_map_left]
    apply bind_congr
    intro value
    rw [map_bind]
    apply bind_congr
    intro _
    rw [map_bind]
    apply bind_congr
    intro second
    split
    · simp only [map_bind]
      rfl
    · rfl

/-- Known labels are replaced in arguments. -/
theorem argument_withLabels (disjoint : Disjoint constants addresses) :
    argument (constants.withLabels addresses) =
      Argument.mapValues (SymInt.substitute addresses) <$>
        argument constants := by
  rw [argument, argument, address, address,
    addressInside_withLabels disjoint, expression_withLabels disjoint,
    map_bind]
  apply bind_congr
  intro token
  split
  · rw [map_bind]
    rfl
  · rw [map_bind]
    rfl
  · rw [map_bind, bind_assoc, bind_assoc]
    apply bind_congr
    intro _
    rw [bind_map_left]
    rfl
  · rw [map_bind, bind_map_left]
    rfl

theorem argumentsOnto_withLabels
    (disjoint : Disjoint constants addresses)
    (reversed : List Argument) :
    argumentsOnto (constants.withLabels addresses)
        (reversed.map
          (Argument.mapValues (SymInt.substitute addresses))) =
      List.map (Argument.mapValues (SymInt.substitute addresses)) <$>
        argumentsOnto constants reversed := by
  funext cursor
  induction remaining : cursor.remaining using Nat.strongRecOn
    generalizing cursor reversed with
  | ind remaining inductionHypothesis =>
  rw [argumentsOnto_eq _ (reversed.map _),
    argumentsOnto_eq constants reversed, argument_withLabels disjoint,
    map_bind, bind_map_left]
  apply bind_congr_at
  intro parsed middle found
  rw [map_bind, current_bind, current_bind, ← List.map_cons]
  split
  · next comma =>
    rw [map_bind]
    apply bind_congr_at
    intro _ after moved
    have fewer := Nat.lt_of_lt_of_le
      (advance_remaining_lt moved (inside_of_isMark comma))
      (argument_neverGrows _ found)
    exact inductionHypothesis _ (remaining ▸ fewer) _ _ rfl
  · rw [← List.map_reverse]
    rfl

theorem arguments_withLabels (disjoint : Disjoint constants addresses) :
    arguments (constants.withLabels addresses) =
      List.map (Argument.mapValues (SymInt.substitute addresses)) <$>
        arguments constants := by
  rw [arguments, arguments, map_bind]
  apply bind_congr
  intro token
  split
  · rfl
  · exact argumentsOnto_withLabels disjoint []

theorem timesCount_withLabels (disjoint : Disjoint constants addresses)
    (mnemonic : Mnemonic) :
    timesCount (constants.withLabels addresses) mnemonic =
      SymInt.substitute addresses <$> timesCount constants mnemonic := by
  rw [timesCount, timesCount, expression_withLabels disjoint]
  split
  · rw [map_bind, bind_map_left]
    apply bind_congr
    intro count
    rw [map_bind]
    rfl
  · rw [map_pure, SymInt.substitute_constant]

end Parse

/-! ## Operations -/

namespace Operation

variable {addresses : Table Int}

theorem items_substitute {argument : Argument} {items : List SymInt}
    (found : argument.items = .ok items) :
    (argument.mapValues (SymInt.substitute addresses)).items =
      .ok (items.map (SymInt.substitute addresses)) := by
  cases argument with
  | string bytes =>
      cases found
      simp [Argument.mapValues, Argument.items, SymInt.substitute_constant]
  | operand content =>
      cases content <;> cases found
      rfl

theorem asOperand_mapValues {replace : SymInt → SymInt}
    {argument : Argument} {operand : Operand}
    (found : argument.asOperand = .ok operand) :
    (argument.mapValues replace).asOperand =
      .ok (operand.mapValues replace) := by
  cases argument <;> cases found
  rfl

/-- What maps each element of a list maps the list. -/
theorem mapM_map_eq_ok {α β : Type} {step : α → Except Cause β}
    {before : α → α} {after : β → β}
    {values : List α} {results : List β}
    (found : values.mapM step = .ok results)
    (single : ∀ value result, step value = .ok result →
      step (before value) = .ok (after result)) :
    (values.map before).mapM step = .ok (results.map after) := by
  rw [mapM_eq_ok_iff] at found ⊢
  rw [List.forall₂_map_left_iff, List.forall₂_map_right_iff]
  exact found.imp single

theorem dataItems_substitute {arguments : List Argument}
    {items : List SymInt} (found : dataItems arguments = .ok items) :
    dataItems
        (arguments.map
          (Argument.mapValues (SymInt.substitute addresses))) =
      .ok (items.map (SymInt.substitute addresses)) := by
  cases arguments with
  | nil => cases found
  | cons first rest =>
      rcases bind_eq_ok_iff.1 found with ⟨parts, mapped, joined⟩
      cases joined
      have further := mapM_map_eq_ok mapped
        fun _ _ => @items_substitute addresses _ _
      rw [List.map_cons] at further ⊢
      apply bind_eq_ok_iff.2
      refine ⟨_, further, ?_⟩
      rw [List.map_flatten]
      rfl

theorem repeated_map {α β : Type} (count : Int) (convert : α → β)
    (values : List α) :
    repeated count (values.map convert) =
      (repeated count values).map convert := by
  rw [repeated_eq_flatten, repeated_eq_flatten, List.map_flatten,
    List.map_replicate]

/-- A count that is constant stays what it is. -/
theorem timesItems_substitute {count : SymInt}
    {items result : List SymInt}
    (found : timesItems count items = .ok result) :
    timesItems (count.substitute addresses)
        (items.map (SymInt.substitute addresses)) =
      .ok (result.map (SymInt.substitute addresses)) := by
  rw [timesItems] at found
  split at found
  · cases found
  · next constant =>
    rw [Bool.not_eq_true, Bool.not_eq_false'] at constant
    have stays : (count.substitute addresses).isConstant = true := by
      apply SymInt.isConstant_substitute
      intro label used
      exact absurd (SymInt.isConstant_iff.1 constant label) used
    have base : (count.substitute addresses).base = count.base :=
      SymInt.base_substitute_of_isConstant constant
    rw [timesItems, stays, base, List.length_map, if_neg (by decide)]
    split at found
    · cases found
    · next positive =>
      rw [if_neg positive]
      split at found
      · cases found
      · next within =>
        cases found
        rw [if_neg within, repeated_map]

theorem commonWidth_mapValues (replace : SymInt → SymInt)
    (default : Width) (operands : List Operand) :
    commonWidth default (operands.map (Operand.mapValues replace)) =
      commonWidth default operands := by
  rw [commonWidth, commonWidth, List.filterMap_map]
  simp only [Function.comp_def, Operand.register?_mapValues]

theorem ofOperands_substitute {mnemonic : Mnemonic} {width : Width}
    {operands : List Operand} {operation : Operation}
    (found : ofOperands mnemonic width operands = .ok operation) :
    ofOperands mnemonic width
        (operands.map (Operand.mapValues (SymInt.substitute addresses))) =
      .ok (operation.mapValues (SymInt.substitute addresses)) := by
  rw [ofOperands] at found ⊢
  cases category : mnemonic.category <;> rw [category] at found
  case step =>
    dsimp only at found ⊢
    split at found <;> cases found
    simp [mapValues, Operand.mapValues, SymInt.substitute_constant]
  case jump =>
    dsimp only at found ⊢
    split at found <;> cases found
    rfl
  case reversible =>
    dsimp only at found ⊢
    split at found <;> cases found
    · next left right => cases left <;> rfl
    · next right left notDirect =>
      cases left with
      | register direct => exact absurd rfl (notDirect direct)
      | displacement => rfl
      | indirect => rfl
      | indirectDisplacement => rfl
  case unary =>
    dsimp only at found ⊢
    split at found <;> cases found
    rfl
  case nullary =>
    dsimp only at found ⊢
    split at found <;> cases found
    rfl
  case data => cases found
  case times => cases found

/-- Known labels are replaced in operations. -/
theorem ofArguments_substitute {default : Width} {mnemonic : Mnemonic}
    {count : SymInt} {arguments : List Argument} {operation : Operation}
    (found : ofArguments default mnemonic count arguments =
      .ok operation) :
    ofArguments default mnemonic (count.substitute addresses)
        (arguments.map
          (Argument.mapValues (SymInt.substitute addresses))) =
      .ok (operation.mapValues (SymInt.substitute addresses)) := by
  rw [ofArguments] at found ⊢
  split at found
  · rcases bind_eq_ok_iff.1 found with ⟨items, split, made⟩
    cases made
    apply bind_eq_ok_iff.2
    exact ⟨_, dataItems_substitute split, rfl⟩
  · rcases bind_eq_ok_iff.1 found with ⟨items, split, rest⟩
    rcases bind_eq_ok_iff.1 rest with ⟨all, many, made⟩
    cases made
    apply bind_eq_ok_iff.2
    refine ⟨_, dataItems_substitute split, bind_eq_ok_iff.2 ?_⟩
    exact ⟨_, timesItems_substitute many, rfl⟩
  · rcases bind_eq_ok_iff.1 found with ⟨operands, converted, rest⟩
    rcases bind_eq_ok_iff.1 rest with ⟨width, common, made⟩
    apply bind_eq_ok_iff.2
    refine ⟨_, mapM_map_eq_ok converted fun _ _ => asOperand_mapValues,
      bind_eq_ok_iff.2 ⟨width, ?_, ofOperands_substitute made⟩⟩
    rw [commonWidth_mapValues, common]

end Operation

/-! ## Statements -/

namespace Parse

variable {constants : Table Int64} {addresses : Table Int}

theorem instruction_withLabels
    (disjoint : Disjoint constants addresses) {width : Width}
    {mnemonic : Mnemonic} {cursor after : Cursor} {item : Item}
    (found :
      instruction width constants mnemonic cursor = .ok item after) :
    instruction width (constants.withLabels addresses) mnemonic cursor =
      .ok (item.mapValues (SymInt.substitute addresses)) after := by
  rw [instruction, current_bind, bind_ok_iff] at found
  rcases found with ⟨_, started, moved, rest⟩
  rcases bind_ok_iff.1 rest with ⟨count, counted, countFound, rest⟩
  rcases bind_ok_iff.1 rest with ⟨parsed, ended, parsedFound, made⟩
  rw [instruction, current_bind, bind_of_ok moved,
    timesCount_withLabels disjoint, arguments_withLabels disjoint,
    bind_map_left, bind_of_ok countFound, bind_map_left,
    bind_of_ok parsedFound]
  cases operation :
      Operation.ofArguments width mnemonic count parsed with
  | error cause =>
      rw [operation] at made
      cases made
  | ok operation' =>
      rw [operation] at made
      cases made
      rw [Operation.ofArguments_substitute operation]
      rfl

theorem label_mapValues {replace : SymInt → SymInt}
    {cursor after : Cursor} {item : Item}
    (found : label cursor = .ok item after) :
    item.mapValues replace = item := by
  rw [label, current_bind, bind_ok_iff] at found
  rcases found with ⟨_, started, -, rest⟩
  rw [current_bind] at rest
  cases kind : started.current.kind <;> rw [kind] at rest
  case identifier =>
    rcases bind_ok_iff.1 rest with ⟨_, _, -, made⟩
    cases made
    rfl
  all_goals cases rest

theorem complete_map {convert : Item → Item} {item : Item}
    {cursor after : Cursor} {result : Option Item}
    (found : complete item cursor = .ok result after) :
    complete (convert item) cursor = .ok (result.map convert) after := by
  rw [complete, current_bind] at found ⊢
  split at found
  · next ends =>
    cases found
    rw [if_pos ends]
    rfl
  · cases found

/-- Known labels are replaced in statements. -/
theorem statement_withLabels (disjoint : Disjoint constants addresses)
    {width : Width} {cursor after : Cursor} {result : Option Item}
    (found : statement width constants cursor = .ok result after) :
    statement width (constants.withLabels addresses) cursor =
      .ok (result.map (Item.mapValues (SymInt.substitute addresses)))
        after := by
  rcases bind_ok_iff.1 found with ⟨_, start, skipped, here⟩
  rw [statement, bind_of_ok skipped]
  rw [statementHere] at here ⊢
  split at here
  · cases here
    rfl
  · rcases bind_ok_iff.1 here with ⟨item, middle, labelled, done⟩
    have whole := @complete_map
      (Item.mapValues (SymInt.substitute addresses)) _ _ _ _ done
    rw [label_mapValues labelled] at whole
    rw [bind_of_ok labelled]
    exact whole
  · rcases bind_ok_iff.1 here with ⟨item, middle, parsed, done⟩
    rw [bind_of_ok (instruction_withLabels disjoint parsed)]
    exact complete_map done
  · cases here

end Parse

namespace Parser

variable {constants : Table Int64} {addresses : Table Int}

/-- The same parser, to which the addresses of labels are known. -/
def withLabels (parser : Parser) (addresses : Table Int) : Parser :=
  { parser with constants := parser.constants.withLabels addresses }

/-- Where a statement is given, it is also given with known labels. -/
theorem next_withLabels {parser : Parser}
    (disjoint : Parse.Disjoint parser.constants addresses)
    {result : Option Item} (given : parser.next.1 = .ok result) :
    parser.next.2.constants = parser.constants ∧
      (parser.withLabels addresses).next =
        (.ok (result.map (Item.mapValues (SymInt.substitute addresses))),
          parser.next.2.withLabels addresses) := by
  rcases exists_of_next given with ⟨after, found⟩
  rcases Parse.bind_ok_iff.1 found with ⟨_, middle, started, here⟩
  have replaced := Parse.statement_withLabels disjoint here
  rw [next_of_statement found]
  refine ⟨rfl, @next_of_statement (parser.withLabels addresses) _ _ ?_⟩
  exact Parse.bind_ok_iff.2 ⟨_, middle, started, replaced⟩

/-- A parser that knows the labels delivers the same items, replaced. -/
theorem Delivers.withLabels {parser : Parser} {items : List Item}
    (disjoint : Parse.Disjoint parser.constants addresses)
    (delivered : Delivers parser items none) :
    Delivers (parser.withLabels addresses)
      (items.map (Item.mapValues (SymInt.substitute addresses))) none := by
  generalize ending : (none : Option Error) = fault at delivered
  induction delivered with
  | ended done =>
      rcases next_withLabels disjoint done with ⟨-, next⟩
      refine .ended ?_
      rw [next]
      rfl
  | failed => cases ending
  | item given others inductionHypothesis =>
      rcases next_withLabels disjoint given with ⟨same, next⟩
      rw [← same] at disjoint
      refine .item ?_ ?_
      · rw [next]
        rfl
      · rw [next]
        exact inductionHypothesis disjoint ending

end Parser

end FlatAsm
