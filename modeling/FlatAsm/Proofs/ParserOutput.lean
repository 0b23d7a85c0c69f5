import FlatAsm.Code
import FlatAsm.Parser.Statement
import FlatAsm.Proofs.Outcomes
import FlatAsm.Proofs.SymbolicValue

/-!
# What a parser can produce

Tokens of a text name only registers and mnemonics of the machine.  From this
it follows what the instructions of a parser look like: their opcodes are
those of mnemonics of the right category, all their registers have the width
of the instruction, no operand is missing, and no symbolic integer keeps a
label with coefficient zero.

The invariant is about the tokens that are still to come, so it also holds
after errors.
-/

namespace FlatAsm

/-! ## Tokens -/

/-- The token names only registers and mnemonics of the machine. -/
def Token.OfMachine (token : Token) : Prop :=
  match token.kind with
  | .register named => named ∈ Register.all
  | .mnemonic keyword => keyword ∈ Mnemonic.all
  | _ => True

theorem Register.ofName?_mem {name : Text} {register : Register}
    (found : Register.ofName? name = some register) :
    register ∈ Register.all := by
  rw [Register.ofName?, List.lookup_eq_some_iff] at found
  obtain ⟨front, back, entries, -⟩ := found
  have member : (name.lowerCase, register) ∈ Register.named := by
    rw [entries]
    simp
  rw [Register.named, List.mem_map] at member
  obtain ⟨listed, inTable, same⟩ := member
  exact (Prod.mk.inj same).2 ▸ inTable

theorem Mnemonic.ofName?_mem {name : Text} {mnemonic : Mnemonic}
    (found : Mnemonic.ofName? name = some mnemonic) :
    mnemonic ∈ Mnemonic.all := by
  unfold Mnemonic.ofName? at found
  exact List.mem_of_find?_eq_some found

namespace Token

theorem ofMachine_of_wordKind (word : Text) (line : Int) (text : Text) :
    OfMachine ⟨wordKind word, line, text⟩ := by
  unfold OfMachine wordKind
  dsimp only
  cases register : Register.ofName? word with
  | some named => exact Register.ofName?_mem register
  | none =>
      cases mnemonic : Mnemonic.ofName? word with
      | some keyword => exact Mnemonic.ofName?_mem mnemonic
      | none => trivial

/-- Is the token a register, a mnemonic or a name? -/
def Kind.isOfWord : Kind → Bool
  | .register _ | .mnemonic _ | .identifier => true
  | _ => false

theorem isWord_takeWhile {first : UInt8} {rest : Text}
    (starts : isWordStart first = true) :
    isWord ((first :: rest).takeWhile isWordByte) = true := by
  rw [List.takeWhile_cons_of_pos (by simp [isWordByte, starts])]
  simp [isWord, starts]

/-- Only words are read as registers, mnemonics and names. -/
theorem scanToken_word {evaluator : Option Evaluator} {line : Int}
    {text : Text} {scanned : Scanned}
    (result : scanToken evaluator line text = .ok scanned)
    (ofWord : scanned.token.kind.isOfWord = true) :
    isWord scanned.token.text = true ∧
      scanned.token.kind = wordKind scanned.token.text := by
  rw [scanToken_eq] at result
  split at result
  · cases result
    cases ofWord
  · split at result
    · cases result
      cases ofWord
    split at result
    · simp only [scanNumber] at result
      split at result <;> cases result
      cases ofWord
    split at result
    · simp only [scanCharacter] at result
      split at result
      · split at result <;> cases result
        cases ofWord
      · cases result
    split at result
    · simp only [scanString] at result
      split at result <;> cases result
      cases ofWord
    split at result
    · next starts =>
      cases result
      exact ⟨isWord_takeWhile starts, rfl⟩
    split at result
    · cases result
      cases ofWord
    · split at result
      · simp only [scanFormula_eq, formulaOutcome] at result
        split at result
        · cases result
        · split at result <;> cases result
          cases ofWord
      · cases result

theorem scanToken_ofMachine {evaluator : Option Evaluator} {line : Int}
    {text : Text} {scanned : Scanned}
    (result : scanToken evaluator line text = .ok scanned) :
    scanned.token.OfMachine := by
  by_cases ofWord : scanned.token.kind.isOfWord = true
  · have kind := (scanToken_word result ofWord).2
    unfold OfMachine
    rw [kind]
    exact ofMachine_of_wordKind _ line text
  · unfold OfMachine
    split
    · next kind => simp [kind, Kind.isOfWord] at ofWord
    · next kind => simp [kind, Kind.isOfWord] at ofWord
    · trivial

end Token

/-- What holds of each token that is read holds of all tokens. -/
theorem TokenStream.forall_scanOnto {property : Token → Prop}
    {evaluator : Option Evaluator}
    (each : ∀ line text scanned,
      Token.scanToken evaluator line text = .ok scanned →
        property scanned.token)
    {reversed : List Token} {line : Int} {text : Text}
    (before : ∀ token ∈ reversed, property token) :
    ∀ token ∈ (scanOnto evaluator reversed line text).tokens,
      property token := by
  induction reversed, line, text using scanOnto_induct evaluator with
  | failed reversed line text fault scan =>
      rw [scanOnto_eq, scan]
      simpa using before
  | ended reversed line text scanned scan final =>
      rw [scanOnto_eq, scan]
      dsimp only
      rw [if_pos final]
      intro token member
      rcases List.mem_cons.1 (List.mem_reverse.1 member) with rfl | earlier
      · exact each _ _ _ scan
      · exact before token earlier
  | inside reversed line text scanned scan inside inductionHypothesis =>
      rw [scanOnto_eq, scan]
      dsimp only
      rw [if_neg inside]
      apply inductionHypothesis
      intro token member
      rcases List.mem_cons.1 member with rfl | earlier
      · exact each _ _ _ scan
      · exact before token earlier

/-- All tokens of a text are of the machine. -/
theorem tokenize_ofMachine (evaluator : Option Evaluator) (text : Text) :
    ∀ token ∈ (tokenize evaluator text).tokens, token.OfMachine :=
  TokenStream.forall_scanOnto
    (fun _ _ _ result => Token.scanToken_ofMachine result) (by simp)

/-! ## Symbolic integers and operands -/

/-- No label is kept with coefficient zero. -/
def SymInt.Reduced (value : SymInt) : Prop :=
  ∀ entry ∈ value.coefficients.entries, entry.2 ≠ 0

namespace SymInt

theorem reduced_constant (number : Int64) : (constant number).Reduced := by
  intro entry member
  cases member

theorem reduced_symbol (label : Text) : (symbol label).Reduced := by
  intro entry member
  have same : entry = (label, 1) := by simpa [symbol, Table.insert,
    Table.insertEntry, Table.empty] using member
  rw [same]
  exact (by decide : (1 : Int64) ≠ 0)

theorem reduced_combine (left : SymInt) (sign : Int64) (right : SymInt) :
    (left.combine sign right).Reduced := by
  intro entry member
  have kept := (List.mem_filter.1 member).2
  simpa using kept

end SymInt

namespace Operand

/-- The registers are those of the machine, and the values are reduced. -/
structure OfMachine (operand : Operand) : Prop where
  registers : ∀ register, operand.register? = some register →
    register ∈ Register.all
  values : ∀ value, operand.displacement? = some value → value.Reduced

/-- Every register that the operand names has the width. -/
def HasWidth (operand : Operand) (width : Width) : Prop :=
  ∀ register, operand.register? = some register → register.width = width

end Operand

/-- An argument is a string or an operand of the machine. -/
def Argument.OfMachine : Argument → Prop
  | .string _ => True
  | .operand content => content.OfMachine

/--
An operation is one that the machine has.

The default width is that of operations that name no register.
-/
inductive Operation.OfMachine (default : Width) : Operation → Prop where
  | data {items : List SymInt}
      (values : ∀ item ∈ items, item.Reduced) :
      OfMachine default (.data items)
  | jump {mnemonic : Mnemonic} {target : SymInt}
      (known : mnemonic ∈ Mnemonic.all)
      (category : mnemonic.category = .jump)
      (values : target.Reduced) :
      OfMachine default (.jump mnemonic.opcode default target)
  | reversible {mnemonic : Mnemonic} {width : Width} {left : Operand}
      {right : Register} {reversed : Bool}
      (known : mnemonic ∈ Mnemonic.all)
      (category :
        mnemonic.category = .step ∨ mnemonic.category = .reversible)
      (leftOfMachine : left.OfMachine)
      (leftWidth : left.HasWidth width)
      (rightOfMachine : right ∈ Register.all)
      (rightWidth : right.width = width)
      (direction : reversed = true → ∀ direct, left ≠ .register direct) :
      OfMachine default
        (.reversible mnemonic.pair width (some left) right reversed)
  | unary {mnemonic : Mnemonic} {width : Width} {operand : Operand}
      (known : mnemonic ∈ Mnemonic.all)
      (category : mnemonic.category = .unary)
      (operandOfMachine : operand.OfMachine)
      (operandWidth : operand.HasWidth width)
      (fallback : operand.register? = none → width = default) :
      OfMachine default (.unary mnemonic.opcode width (some operand))
  | nullary {mnemonic : Mnemonic}
      (known : mnemonic ∈ Mnemonic.all)
      (category : mnemonic.category = .nullary) :
      OfMachine default (.nullary mnemonic.opcode default)

/-- The instruction of an item, if any, is one that the machine has. -/
def Item.OfMachine (default : Width) : Item → Prop
  | .label _ _ => True
  | .instruction content => content.operation.OfMachine default

/-! ## Parsing keeps to the machine -/

/-- The current token and all that follow are of the machine. -/
structure Cursor.OfMachine (cursor : Cursor) : Prop where
  current : cursor.current.OfMachine
  upcoming : ∀ token ∈ cursor.upcoming, token.OfMachine

namespace Parse

variable {α β : Type}

/--
Success with a result of the given kind, or failure.

Either way the tokens that are left are of the machine.
-/
def Keeps (result : α → Prop) : EStateM.Result Error Cursor α → Prop
  | .ok value after => after.OfMachine ∧ result value
  | .error _ after => after.OfMachine

/-- Among tokens of the machine, success gives results of the given kind. -/
def Ensures (result : α → Prop) (parse : Parse α) : Prop :=
  ∀ ⦃cursor : Cursor⦄, cursor.OfMachine → Keeps result (parse cursor)

theorem pure_ensures {result : α → Prop} {value : α}
    (holds : result value) :
    Ensures result (pure value : Parse α) :=
  fun _ ofMachine => ⟨ofMachine, holds⟩

theorem throw_ensures {result : α → Prop} (fault : Error) :
    Ensures result (throw fault : Parse α) :=
  fun _ ofMachine => ofMachine

theorem unexpected_ensures {result : α → Prop} :
    Ensures result (unexpected : Parse α) :=
  fun _ ofMachine => ofMachine

theorem current_ensures : Ensures Token.OfMachine current :=
  fun _ ofMachine => ⟨ofMachine, ofMachine.current⟩

theorem advance_ensures : Ensures (fun _ => True) advance := by
  rintro ⟨token, upcoming, fault⟩ ⟨latest, following⟩
  cases upcoming with
  | nil =>
      cases fault with
      | none => exact ⟨⟨trivial, following⟩, trivial⟩
      | some fault => exact ⟨latest, following⟩
  | cons next rest =>
      refine ⟨⟨following next List.mem_cons_self, ?_⟩, trivial⟩
      intro later member
      exact following later (List.mem_cons_of_mem _ member)

theorem bind_ensures {middle : α → Prop} {result : β → Prop}
    {first : Parse α} {next : α → Parse β}
    (firstStep : Ensures middle first)
    (nextStep : ∀ value, middle value → Ensures result (next value)) :
    Ensures result (first >>= next) := by
  intro cursor ofMachine
  have done := firstStep ofMachine
  change Keeps result (EStateM.bind first next cursor)
  unfold EStateM.bind
  split
  · next value after found =>
    rw [found] at done
    exact nextStep value done.2 done.1
  · next fault after failed =>
    rw [failed] at done
    exact done

theorem ite_ensures {result : α → Prop} {condition : Prop}
    [Decidable condition] {yes no : Parse α}
    (whenYes : Ensures result yes) (whenNo : Ensures result no) :
    Ensures result (if condition then yes else no) := by
  split
  · exact whenYes
  · exact whenNo

theorem expect_ensures (mark : Mark) :
    Ensures (fun _ => True) (expect mark) :=
  bind_ensures current_ensures fun _ _ =>
    ite_ensures advance_ensures unexpected_ensures

theorem moveWith_ensures {value : SymInt} (reduced : value.Reduced) :
    Ensures SymInt.Reduced (moveWith value) :=
  bind_ensures advance_ensures fun _ _ => pure_ensures reduced

theorem partValue?_reduced {constants : Table Int64} {token : Token}
    {value : SymInt} (found : partValue? constants token = some value) :
    value.Reduced := by
  rw [partValue?] at found
  cases kind : token.kind <;> rw [kind] at found
  case integer number =>
    cases found
    exact SymInt.reduced_constant number
  case identifier =>
    cases found
    rw [nameValue]
    split
    · exact SymInt.reduced_constant _
    · exact SymInt.reduced_symbol _
  all_goals cases found

theorem signed_reduced {negative : Bool} {value : SymInt}
    (reduced : value.Reduced) : (signed negative value).Reduced := by
  unfold signed
  split
  · exact SymInt.reduced_combine _ _ _
  · exact reduced

theorem signedPart_ensures (constants : Table Int64) (negative : Bool) :
    Ensures SymInt.Reduced (signedPart constants negative) := by
  intro cursor ofMachine
  fun_induction signedPart constants negative cursor with
  | case1 negative cursor value found =>
      exact moveWith_ensures (signed_reduced (partValue?_reduced found))
        ofMachine
  | case2 negative cursor _ _ fault after moved =>
      have done := advance_ensures ofMachine
      rw [moved] at done
      exact done
  | case3 negative cursor _ _ _ after moved inductionHypothesis =>
      have done := advance_ensures ofMachine
      rw [moved] at done
      exact inductionHypothesis done.1
  | case4 => exact ofMachine

theorem joinPart?_reduced {token : Token}
    {join : SymInt → SymInt → SymInt}
    (found : joinPart? token = some join) (left right : SymInt) :
    (join left right).Reduced := by
  unfold joinPart? at found
  split at found <;> cases found
  · exact SymInt.reduced_combine _ _ _
  · exact SymInt.reduced_combine _ _ _

theorem furtherParts_ensures (constants : Table Int64) {value : SymInt}
    (reduced : value.Reduced) :
    Ensures SymInt.Reduced (furtherParts constants value) := by
  intro cursor ofMachine
  fun_induction furtherParts constants value cursor with
  | case1 => exact ⟨ofMachine, reduced⟩
  | case2 value cursor _ _ fault after moved =>
      have done := advance_ensures ofMachine
      rw [moved] at done
      exact done
  | case3 value cursor _ _ _ middle moved fault after part =>
      have done := advance_ensures ofMachine
      rw [moved] at done
      have parsed := signedPart_ensures constants false done.1
      rw [part] at parsed
      exact parsed
  | case4 value cursor join sign _ middle moved term after part
      inductionHypothesis =>
      have done := advance_ensures ofMachine
      rw [moved] at done
      have parsed := signedPart_ensures constants false done.1
      rw [part] at parsed
      exact inductionHypothesis (joinPart?_reduced sign value term)
        parsed.1

theorem expression_ensures (constants : Table Int64) :
    Ensures SymInt.Reduced (expression constants) :=
  bind_ensures (signedPart_ensures constants false) fun _ reduced =>
    furtherParts_ensures constants reduced

theorem ofMachine_indirectDisplacement {pointer : Register}
    {value : SymInt} (known : pointer ∈ Register.all)
    (reduced : value.Reduced) :
    (Operand.indirectDisplacement pointer value).OfMachine where
  registers := by
    rintro _ ⟨⟩
    exact known
  values := by
    rintro _ ⟨⟩
    exact reduced

theorem addressInside_ensures (constants : Table Int64) :
    Ensures Operand.OfMachine (addressInside constants) := by
  refine bind_ensures current_ensures fun token ofMachine => ?_
  rw [Token.OfMachine] at ofMachine
  split
  · next pointer kind =>
    rw [kind] at ofMachine
    refine bind_ensures advance_ensures fun _ _ => ?_
    refine bind_ensures current_ensures fun _ _ => ?_
    refine ite_ensures ?_ ?_
    · refine bind_ensures advance_ensures fun _ _ => pure_ensures ⟨?_, ?_⟩
      · rintro _ ⟨⟩
        exact ofMachine
      · rintro _ ⟨⟩
    · refine bind_ensures (expect_ensures _) fun _ _ => ?_
      refine bind_ensures (expression_ensures _) fun _ reduced => ?_
      refine bind_ensures (expect_ensures _) fun _ _ => pure_ensures ?_
      exact ofMachine_indirectDisplacement ofMachine reduced
  · refine bind_ensures (expression_ensures _) fun _ reduced => ?_
    refine bind_ensures (expect_ensures _) fun _ _ => ?_
    refine bind_ensures current_ensures fun token ofMachine => ?_
    rw [Token.OfMachine] at ofMachine
    split
    · next pointer kind =>
      rw [kind] at ofMachine
      refine bind_ensures advance_ensures fun _ _ => ?_
      refine bind_ensures (expect_ensures _) fun _ _ => pure_ensures ?_
      exact ofMachine_indirectDisplacement ofMachine reduced
    · exact unexpected_ensures

theorem argument_ensures (constants : Table Int64) :
    Ensures Argument.OfMachine (argument constants) := by
  refine bind_ensures current_ensures fun token ofMachine => ?_
  rw [Token.OfMachine] at ofMachine
  split
  · exact bind_ensures advance_ensures fun _ _ => pure_ensures trivial
  · next register kind =>
    rw [kind] at ofMachine
    refine bind_ensures advance_ensures fun _ _ => pure_ensures ⟨?_, ?_⟩
    · rintro _ ⟨⟩
      exact ofMachine
    · rintro _ ⟨⟩
  · have addressed : Ensures Operand.OfMachine (address constants) :=
      bind_ensures advance_ensures fun _ _ => addressInside_ensures _
    refine bind_ensures addressed fun operand found => ?_
    exact @pure_ensures _ _ (Argument.operand operand) found
  · refine bind_ensures (expression_ensures _) fun value reduced => ?_
    refine pure_ensures ⟨?_, ?_⟩
    · rintro _ ⟨⟩
    · rintro _ ⟨⟩
      exact reduced

theorem argumentsOnto_ensures (constants : Table Int64)
    {reversed : List Argument}
    (before : ∀ parsed ∈ reversed, parsed.OfMachine) :
    Ensures (fun parsed => ∀ found ∈ parsed, found.OfMachine)
      (argumentsOnto constants reversed) := by
  intro cursor ofMachine
  have first := argument_ensures constants ofMachine
  fun_induction argumentsOnto constants reversed cursor with
  | case1 reversed cursor fault after failed =>
      rw [failed] at first
      exact first
  | case2 reversed cursor parsed middle found comma fault after moved =>
      rw [found] at first
      have done := advance_ensures first.1
      rw [moved] at done
      exact done
  | case3 reversed cursor parsed middle found comma _ after moved
      inductionHypothesis =>
      rw [found] at first
      have done := advance_ensures first.1
      rw [moved] at done
      refine inductionHypothesis ?_ done.1
        (argument_ensures constants done.1)
      intro earlier member
      rcases List.mem_cons.1 member with rfl | older
      · exact first.2
      · exact before earlier older
  | case4 reversed cursor parsed middle found =>
      rw [found] at first
      refine ⟨first.1, fun earlier member => ?_⟩
      rcases List.mem_cons.1 (List.mem_reverse.1 member) with rfl | older
      · exact first.2
      · exact before earlier older

theorem arguments_ensures (constants : Table Int64) :
    Ensures (fun parsed => ∀ found ∈ parsed, found.OfMachine)
      (arguments constants) :=
  bind_ensures current_ensures fun _ _ =>
    ite_ensures (pure_ensures (by simp))
      (argumentsOnto_ensures constants (by simp))

end Parse

/-! ## Operations -/

namespace Operation

theorem items_reduced {argument : Argument} {items : List SymInt}
    (ofMachine : argument.OfMachine)
    (found : argument.items = .ok items) :
    ∀ item ∈ items, item.Reduced := by
  unfold Argument.items at found
  split at found <;> cases found
  · intro item member
    obtain ⟨byte, -, rfl⟩ := List.mem_map.1 member
    exact SymInt.reduced_constant _
  · next value =>
    intro item member
    rw [List.mem_singleton.1 member]
    exact ofMachine.values value rfl

theorem flatten_reduced {arguments : List Argument}
    {parts : List (List SymInt)}
    (ofMachine : ∀ argument ∈ arguments, argument.OfMachine)
    (split : List.Forall₂ (fun argument part => argument.items = .ok part)
      arguments parts) :
    ∀ item ∈ parts.flatten, item.Reduced := by
  induction split with
  | nil => simp
  | cons first _ inductionHypothesis =>
      intro item member
      rcases List.mem_append.1 member with here | later
      · exact items_reduced (ofMachine _ List.mem_cons_self) first item here
      · refine inductionHypothesis (fun argument inRest => ?_) item later
        exact ofMachine argument (List.mem_cons_of_mem _ inRest)

theorem dataItems_reduced {arguments : List Argument}
    {items : List SymInt}
    (ofMachine : ∀ argument ∈ arguments, argument.OfMachine)
    (found : dataItems arguments = .ok items) :
    ∀ item ∈ items, item.Reduced := by
  unfold dataItems at found
  split at found
  · cases found
  · obtain ⟨parts, mapped, joined⟩ := bind_eq_ok_iff.1 found
    cases joined
    exact flatten_reduced ofMachine (mapM_eq_ok_iff.1 mapped)

theorem timesItems_reduced {count : SymInt} {items repeatedItems : List SymInt}
    (reduced : ∀ item ∈ items, item.Reduced)
    (found : timesItems count items = .ok repeatedItems) :
    ∀ item ∈ repeatedItems, item.Reduced := by
  unfold timesItems at found
  split at found
  · cases found
  split at found
  · cases found
  split at found
  · cases found
  · cases found
    intro item member
    rw [repeated_eq_flatten, List.mem_flatten] at member
    obtain ⟨copy, inCopies, inCopy⟩ := member
    rw [(List.mem_replicate.1 inCopies).2] at inCopy
    exact reduced item inCopy

/-- The common width is that of every register, or else the default. -/
theorem commonWidth_eq_ok {default width : Width}
    {operands : List Operand}
    (found : commonWidth default operands = .ok width) :
    (∀ operand ∈ operands, operand.HasWidth width) ∧
      ((∀ operand ∈ operands, operand.register? = none) →
        width = default) := by
  unfold commonWidth at found
  split at found
  · next none =>
    cases found
    refine ⟨fun operand member register named => ?_, fun _ => rfl⟩
    have absent := List.filterMap_eq_nil_iff.1 none operand member
    rw [absent] at named
    cases named
  · next first others registers =>
    split at found
    · next same =>
      cases found
      refine ⟨fun operand member register named => ?_, fun absent => ?_⟩
      · have listed : register ∈ first :: others := by
          rw [← registers]
          exact List.mem_filterMap.2 ⟨operand, member, named⟩
        rcases List.mem_cons.1 listed with rfl | later
        · rfl
        · have equal := List.all_eq_true.1 same register later
          simpa using equal
      · have nothing := List.filterMap_eq_nil_iff.2 absent
        rw [registers] at nothing
        cases nothing
    · cases found

theorem ofOperands_ofMachine {default width : Width}
    {mnemonic : Mnemonic} {operands : List Operand}
    {operation : Operation} (known : mnemonic ∈ Mnemonic.all)
    (ofMachine : ∀ operand ∈ operands, operand.OfMachine)
    (common : commonWidth default operands = .ok width)
    (found : ofOperands mnemonic width operands = .ok operation) :
    operation.OfMachine default := by
  obtain ⟨widths, fallback⟩ := commonWidth_eq_ok common
  unfold ofOperands at found
  cases category : mnemonic.category <;> rw [category] at found
  case step =>
    dsimp only at found
    split at found <;> cases found
    next register =>
    refine .reversible known (.inl category) ⟨?_, ?_⟩ ?_
      ((ofMachine _ List.mem_cons_self).registers register rfl)
      (widths _ List.mem_cons_self register rfl) ?_
    · rintro _ ⟨⟩
    · rintro _ ⟨⟩
      exact SymInt.reduced_constant 1
    · rintro _ ⟨⟩
    · rintro _ _ ⟨⟩
  case jump =>
    dsimp only at found
    split at found <;> cases found
    next target =>
    have defaulted : width = default := by
      apply fallback
      intro operand member
      rw [List.mem_singleton.1 member]
      rfl
    subst defaulted
    exact .jump known category
      ((ofMachine _ List.mem_cons_self).values target rfl)
  case reversible =>
    dsimp only at found
    split at found <;> cases found
    · next left right =>
      have inside : Operand.register right ∈ [left, .register right] := by
        simp
      refine .reversible known (.inr category)
        (ofMachine _ List.mem_cons_self) (widths _ List.mem_cons_self)
        ((ofMachine _ inside).registers right rfl)
        (widths _ inside right rfl) ?_
      rintro ⟨⟩
    · next right left notDirect =>
      have inside : left ∈ [Operand.register right, left] := by simp
      refine .reversible known (.inr category)
        (ofMachine _ inside) (widths _ inside)
        ((ofMachine _ List.mem_cons_self).registers right rfl)
        (widths _ List.mem_cons_self right rfl) ?_
      intro _ direct same
      exact notDirect direct same
  case unary =>
    dsimp only at found
    split at found <;> cases found
    next operand =>
    refine .unary known category (ofMachine _ List.mem_cons_self)
      (widths _ List.mem_cons_self) ?_
    intro absent
    apply fallback
    intro other member
    rw [List.mem_singleton.1 member]
    exact absent
  case nullary =>
    dsimp only at found
    split at found <;> cases found
    have defaulted : width = default := fallback (by simp)
    subst defaulted
    exact .nullary known category
  case data => cases found
  case times => cases found

theorem asOperand_ofMachine {arguments : List Argument}
    {operands : List Operand}
    (ofMachine : ∀ argument ∈ arguments, argument.OfMachine)
    (converted : List.Forall₂
      (fun argument operand => argument.asOperand = .ok operand)
      arguments operands) :
    ∀ operand ∈ operands, operand.OfMachine := by
  induction converted with
  | nil => simp
  | @cons argument operand _ _ first _ inductionHypothesis =>
      intro other member
      rcases List.mem_cons.1 member with rfl | later
      · have here := ofMachine argument List.mem_cons_self
        cases argument with
        | string bytes => cases first
        | operand content =>
            cases first
            exact here
      · refine inductionHypothesis (fun argument inRest => ?_) other later
        exact ofMachine argument (List.mem_cons_of_mem _ inRest)

/-- Operations made of arguments of the machine are of the machine. -/
theorem ofArguments_ofMachine {default : Width} {mnemonic : Mnemonic}
    {count : SymInt} {arguments : List Argument} {operation : Operation}
    (known : mnemonic ∈ Mnemonic.all)
    (ofMachine : ∀ argument ∈ arguments, argument.OfMachine)
    (found : ofArguments default mnemonic count arguments =
      .ok operation) :
    operation.OfMachine default := by
  unfold ofArguments at found
  split at found
  · obtain ⟨items, split, made⟩ := bind_eq_ok_iff.1 found
    cases made
    exact .data (dataItems_reduced ofMachine split)
  · obtain ⟨items, split, rest⟩ := bind_eq_ok_iff.1 found
    obtain ⟨all, many, made⟩ := bind_eq_ok_iff.1 rest
    cases made
    exact .data
      (timesItems_reduced (dataItems_reduced ofMachine split) many)
  · obtain ⟨operands, converted, rest⟩ := bind_eq_ok_iff.1 found
    obtain ⟨width, common, made⟩ := bind_eq_ok_iff.1 rest
    have operandsOfMachine :=
      asOperand_ofMachine ofMachine (mapM_eq_ok_iff.1 converted)
    exact ofOperands_ofMachine known operandsOfMachine common made

end Operation

/-! ## Statements -/

namespace Parse

theorem label_ensures (default : Width) :
    Ensures (Item.OfMachine default) label := by
  refine bind_ensures current_ensures fun dot _ => ?_
  refine bind_ensures advance_ensures fun _ _ => ?_
  refine bind_ensures current_ensures fun name _ => ?_
  split
  · refine bind_ensures advance_ensures fun _ _ => ?_
    exact @pure_ensures _ _ (Item.label dot.line name.text) trivial
  · exact throw_ensures _

theorem timesCount_ensures (constants : Table Int64)
    (mnemonic : Mnemonic) :
    Ensures (fun _ => True) (timesCount constants mnemonic) := by
  unfold timesCount
  split
  · refine bind_ensures (expression_ensures _) fun _ _ => ?_
    exact bind_ensures (expect_ensures _) fun _ _ => pure_ensures trivial
  · exact pure_ensures trivial

theorem instruction_ensures (width : Width) (constants : Table Int64)
    {mnemonic : Mnemonic} (known : mnemonic ∈ Mnemonic.all) :
    Ensures (Item.OfMachine width)
      (instruction width constants mnemonic) := by
  refine bind_ensures current_ensures fun keyword _ => ?_
  refine bind_ensures advance_ensures fun _ _ => ?_
  refine bind_ensures (timesCount_ensures _ _) fun count _ => ?_
  refine bind_ensures (arguments_ensures _) fun parsed ofMachine => ?_
  cases made : Operation.ofArguments width mnemonic count parsed with
  | error cause => exact throw_ensures _
  | ok operation =>
      have operationOfMachine :=
        Operation.ofArguments_ofMachine known ofMachine made
      exact @pure_ensures _ _
        (Item.instruction ⟨keyword.line, operation⟩) operationOfMachine

theorem skipNewlines_ensures : Ensures (fun _ => True) skipNewlines := by
  intro cursor ofMachine
  have done := advance_ensures ofMachine
  fun_induction skipNewlines cursor with
  | case1 cursor _ fault after moved =>
      rw [moved] at done
      exact done
  | case2 cursor _ _ after moved inductionHypothesis =>
      rw [moved] at done
      exact inductionHypothesis done.1 (advance_ensures done.1)
  | case3 => exact ⟨ofMachine, trivial⟩

/-- A statement, where there is one, is of the machine. -/
def OfMachine (default : Width) (found : Option Item) : Prop :=
  ∀ item, found = some item → item.OfMachine default

theorem complete_ensures {default : Width} {item : Item}
    (ofMachine : item.OfMachine default) :
    Ensures (OfMachine default) (complete item) := by
  refine bind_ensures current_ensures fun _ _ => ite_ensures ?_ ?_
  · apply pure_ensures
    rintro _ ⟨⟩
    exact ofMachine
  · exact unexpected_ensures

theorem statementHere_ensures (width : Width)
    (constants : Table Int64) :
    Ensures (OfMachine width) (statementHere width constants) := by
  intro cursor ofMachine
  unfold statementHere
  split
  · refine ⟨ofMachine, ?_⟩
    rintro _ ⟨⟩
  · exact bind_ensures (label_ensures width)
      (fun _ => complete_ensures) ofMachine
  · next mnemonic kind =>
    have known := ofMachine.current
    rw [Token.OfMachine, kind] at known
    exact bind_ensures (instruction_ensures width constants known)
      (fun _ => complete_ensures) ofMachine
  · exact ofMachine

theorem statement_ensures (width : Width) (constants : Table Int64) :
    Ensures (OfMachine width) (statement width constants) :=
  bind_ensures skipNewlines_ensures fun _ _ =>
    statementHere_ensures width constants

end Parse

end FlatAsm
