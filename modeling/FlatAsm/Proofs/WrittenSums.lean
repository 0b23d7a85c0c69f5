import FlatAsm.Proofs.Lexemes
import FlatAsm.Proofs.ParserNames

/-!
# Symbolic integers in writing

A symbolic integer is written as a sum.  Here the sum is taken apart again:
it consists of parts, each of them a sign and what the sign applies to, and
only the plus sign at the front is left out.  Since nothing but signs starts
a part, and since numbers and labels cannot be taken for each other, the text
determines the terms and the base.
-/

namespace FlatAsm

/-! ## Numbers in writing -/

namespace Text

/-- The last digit stands behind the digits of a tenth of the number. -/
theorem ofNat_eq (number : Nat) :
    ofNat number =
      (if number < 10 then [] else ofNat (number / 10)) ++
        [(0x30 + number % 10).toUInt8] := by
  have digit {value : Nat} (small : value < 10) :
      value.digitChar.toNat.toUInt8 = (0x30 + value).toUInt8 := by
    rw [Nat.toNat_digitChar_of_lt_ten small]
  rw [ofNat, Nat.toDigits_eq_if (by decide)]
  split
  · next small => simp [digit small, Nat.mod_eq_of_lt small]
  · simp [ofNat, digit (Nat.mod_lt number (by decide : 10 > 0))]

theorem toNat_digit {value : Nat} (small : value < 10) :
    (0x30 + value).toUInt8.toNat = 0x30 + value :=
  UInt8.toNat_ofNat_of_lt (show 0x30 + value < 256 by omega)

theorem isDigit_digit {value : Nat} (small : value < 10) :
    isDigit (0x30 + value).toUInt8 = true := by
  have upper : (0x39 : UInt8).toNat = 0x39 := rfl
  have lower : (0x30 : UInt8).toNat = 0x30 := rfl
  simp only [isDigit, Bool.and_eq_true, decide_eq_true_eq,
    UInt8.le_iff_toNat_le, toNat_digit small, upper, lower]
  omega

theorem isDigit_of_mem_ofNat (number : Nat) :
    ∀ byte ∈ ofNat number, isDigit byte = true := by
  induction number using Nat.strongRecOn with
  | ind number inductionHypothesis =>
  rw [ofNat_eq]
  intro byte member
  rcases List.mem_append.1 member with higher | last
  · split at higher
    · cases higher
    · next large =>
      exact inductionHypothesis (number / 10) (by omega) byte higher
  · rw [List.mem_singleton.1 last]
    exact isDigit_digit (Nat.mod_lt _ (by decide))

theorem ofNat_ne_nil (number : Nat) : ofNat number ≠ [] := by
  rw [ofNat_eq]
  simp

/-- A number in writing is a run of digits. -/
theorem isRun_ofNat (number : Nat) :
    Token.RunClass.numbers.isRun (ofNat number) = true := by
  have digits := isDigit_of_mem_ofNat number
  obtain ⟨first, rest, split⟩ :=
    List.exists_cons_of_ne_nil (ofNat_ne_nil number)
  rw [split] at digits ⊢
  obtain ⟨here, others⟩ := List.forall_mem_cons.1 digits
  simp only [Token.RunClass.isRun, Token.RunClass.numbers, here,
    Bool.true_and, List.all_eq_true]
  exact others

/-- Its digits have the value of the number. -/
theorem decimalValue_ofNat (number : Nat) :
    decimalValue (ofNat number) = number := by
  induction number using Nat.strongRecOn with
  | ind number inductionHypothesis =>
  have last := toNat_digit (Nat.mod_lt number (by decide : 10 > 0))
  rw [ofNat_eq, decimalValue_concat, digitValue, last]
  split
  · next small =>
    simp only [decimalValue, List.reverse_nil, List.map_nil,
      Nat.ofDigits_nil]
    omega
  · next large =>
    rw [inductionHypothesis (number / 10) (by omega)]
    omega

theorem ofNat_inj {number other : Nat} (same : ofNat number = ofNat other) :
    number = other := by
  rw [← decimalValue_ofNat number, same, decimalValue_ofNat]

theorem ofInt_eq (number : Int) :
    ofInt number =
      (if number < 0 then [0x2d] else []) ++ ofNat number.natAbs := by
  unfold ofInt
  split <;> rfl

end Text

/-! ## The parts of a sum -/

/-- A sign and what it applies to. -/
structure SumPart where
  negative : Bool
  body : Text
  deriving DecidableEq, Repr

/-- A byte that is a sign. -/
def isSign (byte : UInt8) : Bool :=
  byte = 0x2b || byte = 0x2d

namespace SumPart

/-- The byte of the sign. -/
def sign (part : SumPart) : UInt8 :=
  if part.negative then 0x2d else 0x2b

/-- The part as it stands inside a sum. -/
def text (part : SumPart) : Text :=
  part.sign :: part.body

/-- A term: its label, after its multiple unless that is one. -/
def ofTerm (term : Text × Int64) : SumPart where
  negative := term.2 < 0
  body :=
    if term.2 = 1 ∨ term.2 = -1 then term.1
    else Text.ofNat term.2.toInt.natAbs ++ 0x2a :: term.1

/-- A number. -/
def ofBase (base : Int64) : SumPart where
  negative := base < 0
  body := Text.ofNat base.toInt.natAbs

/-- Something stands after the sign, and it contains no further sign. -/
structure Legible (part : SumPart) : Prop where
  nonempty : part.body ≠ []
  signless : ∀ byte ∈ part.body, isSign byte = false

theorem isSign_sign (part : SumPart) : isSign part.sign = true := by
  unfold sign
  split <;> rfl

theorem negative_of_sign {part other : SumPart}
    (same : part.sign = other.sign) : part.negative = other.negative := by
  unfold sign at same
  cases first : part.negative <;> cases second : other.negative <;>
    simp [first, second] at same ⊢

theorem stops_flatMap_text (parts : List SumPart) :
    Token.Stops (fun byte => !isSign byte) (parts.flatMap text) := by
  cases parts with
  | nil => simp [Token.Stops]
  | cons part rest => simp [Token.Stops, text, isSign_sign]

/-- What stands after the sign goes on up to the next sign. -/
theorem Legible.span_body {part : SumPart} (legible : part.Legible)
    {rest : Text} (stops : Token.Stops (fun byte => !isSign byte) rest) :
    (part.body ++ rest).takeWhile (fun byte => !isSign byte) = part.body ∧
      (part.body ++ rest).dropWhile (fun byte => !isSign byte) = rest :=
  Token.span_of_stops
    (fun byte member => by simp [legible.signless byte member]) stops

/-- Parts that are written one after the other can be told apart. -/
theorem eq_of_flatMap_text {parts others : List SumPart}
    (legible : ∀ part ∈ parts, part.Legible)
    (othersLegible : ∀ part ∈ others, part.Legible)
    (same : parts.flatMap text = others.flatMap text) : parts = others := by
  induction parts generalizing others with
  | nil =>
      cases others with
      | nil => rfl
      | cons other rest => cases same
  | cons part parts inductionHypothesis =>
      cases others with
      | nil => cases same
      | cons other others =>
          obtain ⟨here, legible⟩ := List.forall_mem_cons.1 legible
          obtain ⟨otherHere, othersLegible⟩ :=
            List.forall_mem_cons.1 othersLegible
          simp only [List.flatMap_cons, text, List.cons_append,
            List.cons.injEq] at same
          obtain ⟨signs, rest⟩ := same
          have span := here.span_body (stops_flatMap_text parts)
          have otherSpan := otherHere.span_body (stops_flatMap_text others)
          change part.body ++ parts.flatMap text =
            other.body ++ others.flatMap text at rest
          rw [rest] at span
          have bodies : part.body = other.body :=
            span.1.symm.trans otherSpan.1
          have later := inductionHypothesis legible othersLegible
            (span.2.symm.trans otherSpan.2)
          rw [later]
          congr 1
          cases part
          cases other
          cases bodies
          cases negative_of_sign signs
          rfl

end SumPart

/-! ## Text of terms and of bases -/

theorem isSign_of_isDigit {byte : UInt8} (digit : Text.isDigit byte = true) :
    isSign byte = false := by
  cases sign : isSign byte with
  | false => rfl
  | true =>
      rcases Bool.or_eq_true_iff.1 sign with plus | minus
      · rw [of_decide_eq_true plus] at digit
        cases digit
      · rw [of_decide_eq_true minus] at digit
        cases digit

theorem isSign_of_isWordByte {byte : UInt8}
    (inWord : Token.isWordByte byte = true) : isSign byte = false := by
  cases sign : isSign byte with
  | false => rfl
  | true =>
      rcases Bool.or_eq_true_iff.1 sign with plus | minus
      · rw [of_decide_eq_true plus] at inWord
        cases inWord
      · rw [of_decide_eq_true minus] at inWord
        cases inWord

theorem Token.isRun_of_isWord {word : Text}
    (isWord : Token.isWord word = true) :
    RunClass.words.isRun word = true := by
  cases word <;> exact isWord

theorem Token.isWordByte_of_isWord {word : Text}
    (isWord : Token.isWord word = true) :
    ∀ byte ∈ word, Token.isWordByte byte = true :=
  RunClass.goesOn_of_mem RunClass.words_mem (isRun_of_isWord isWord)

theorem Token.exists_cons_of_isWord {word : Text}
    (isWord : Token.isWord word = true) :
    ∃ first rest, word = first :: rest ∧
      Token.isWordStart first = true :=
  RunClass.exists_cons_of_isRun (isRun_of_isWord isWord)

namespace SumPart

variable {label : Text} {factor base : Int64}

theorem legible_ofBase (base : Int64) : (ofBase base).Legible where
  nonempty := Text.ofNat_ne_nil _
  signless byte member :=
    isSign_of_isDigit (Text.isDigit_of_mem_ofNat _ byte member)

theorem legible_ofTerm (isWord : Token.isWord label = true) :
    (ofTerm (label, factor)).Legible := by
  have inLabel : ∀ byte ∈ label, isSign byte = false := fun byte member =>
    isSign_of_isWordByte (Token.isWordByte_of_isWord isWord byte member)
  unfold ofTerm
  dsimp only
  split
  · constructor
    · rintro rfl
      cases isWord
    · exact inLabel
  · constructor
    · simp
    · intro byte member
      rcases List.mem_append.1 member with digit | later
      · exact isSign_of_isDigit
          (Text.isDigit_of_mem_ofNat _ byte digit)
      · rcases List.mem_cons.1 later with rfl | inside
        · rfl
        · exact inLabel byte inside

/-- Is the part a number? -/
def isNumber (part : SumPart) : Bool :=
  part.body.all Text.isDigit

theorem isNumber_ofBase (base : Int64) : (ofBase base).isNumber = true :=
  List.all_eq_true.2 (Text.isDigit_of_mem_ofNat _)

theorem not_isDigit_of_isWordStart {byte : UInt8}
    (starts : Token.isWordStart byte = true) : Text.isDigit byte = false := by
  cases digit : Text.isDigit byte with
  | false => rfl
  | true =>
      rw [Token.not_isWordStart_of_isDigit digit] at starts
      cases starts

/-- A label is no number. -/
theorem isNumber_ofTerm (isWord : Token.isWord label = true) :
    (ofTerm (label, factor)).isNumber = false := by
  obtain ⟨first, rest, rfl, starts⟩ := Token.exists_cons_of_isWord isWord
  have noDigit := not_isDigit_of_isWordStart starts
  rw [isNumber, ofTerm]
  dsimp only
  split <;> simp [noDigit]

/-- The digits at the front of a term are those of its multiple. -/
theorem span_ofTerm (isWord : Token.isWord label = true) :
    (ofTerm (label, factor)).body.takeWhile Text.isDigit =
        (if factor = 1 ∨ factor = -1 then []
          else Text.ofNat factor.toInt.natAbs) ∧
      (ofTerm (label, factor)).body.dropWhile Text.isDigit =
        (if factor = 1 ∨ factor = -1 then label else 0x2a :: label) := by
  obtain ⟨first, rest, rfl, starts⟩ := Token.exists_cons_of_isWord isWord
  have noDigit := not_isDigit_of_isWordStart starts
  unfold ofTerm
  dsimp only
  split
  · simp [noDigit]
  · exact Token.span_of_stops (Text.isDigit_of_mem_ofNat _)
      (by simp [Token.Stops]; rfl)

theorem eq_of_magnitude {number other : Int64}
    (signs : decide (number < 0) = decide (other < 0))
    (magnitudes : number.toInt.natAbs = other.toInt.natAbs) :
    number = other := by
  have zero : (0 : Int64).toInt = 0 := rfl
  rw [decide_eq_decide, Int64.lt_iff_toInt_lt, Int64.lt_iff_toInt_lt,
    zero] at signs
  rw [← Int64.toInt_inj]
  omega

/-- A term can be told from what is written of it. -/
theorem ofTerm_inj {term other : Text × Int64}
    (isWord : Token.isWord term.1 = true)
    (otherWord : Token.isWord other.1 = true)
    (same : ofTerm term = ofTerm other) : term = other := by
  obtain ⟨label, factor⟩ := term
  obtain ⟨otherLabel, otherFactor⟩ := other
  have signs : decide (factor < 0) = decide (otherFactor < 0) :=
    congrArg negative same
  obtain ⟨digits, rest⟩ := @span_ofTerm label factor isWord
  obtain ⟨otherDigits, otherRest⟩ := @span_ofTerm otherLabel otherFactor
    otherWord
  rw [same, otherDigits] at digits
  rw [same, otherRest] at rest
  have one {number : Int64} (unit : number = 1 ∨ number = -1) :
      number.toInt.natAbs = 1 := by
    rcases unit with rfl | rfl <;> rfl
  by_cases unit : factor = 1 ∨ factor = -1
  · by_cases otherUnit : otherFactor = 1 ∨ otherFactor = -1
    · rw [if_pos unit, if_pos otherUnit] at rest
      rw [rest, eq_of_magnitude signs ((one unit).trans (one otherUnit).symm)]
    · rw [if_pos unit, if_neg otherUnit] at digits
      exact absurd digits (Text.ofNat_ne_nil _)
  · by_cases otherUnit : otherFactor = 1 ∨ otherFactor = -1
    · rw [if_neg unit, if_pos otherUnit] at digits
      exact absurd digits.symm (Text.ofNat_ne_nil _)
    · rw [if_neg unit, if_neg otherUnit] at digits rest
      rw [(List.cons.inj rest).2,
        eq_of_magnitude signs (Text.ofNat_inj digits).symm]

/-- So can a number. -/
theorem ofBase_inj {number other : Int64}
    (same : ofBase number = ofBase other) : number = other :=
  eq_of_magnitude (congrArg negative same)
    (Text.ofNat_inj (congrArg body same))

end SumPart

/-! ## The text of a symbolic integer -/

namespace Text

/-- The text without a plus sign at its front. -/
def withoutPlus : Text → Text
  | [] => []
  | first :: rest => if first = 0x2b then rest else first :: rest

/-- The text with a plus sign at its front unless a minus sign is there. -/
def withPlus : Text → Text
  | [] => []
  | first :: rest =>
      if first = 0x2d then first :: rest else 0x2b :: first :: rest

theorem withoutPlus_append {front : Text} (nonempty : front ≠ [])
    (rest : Text) :
    withoutPlus (front ++ rest) = withoutPlus front ++ rest := by
  obtain ⟨first, others, rfl⟩ := List.exists_cons_of_ne_nil nonempty
  simp only [List.cons_append, withoutPlus]
  split <;> rfl

end Text

namespace SumPart

/-- The plus sign that is left out can be put back. -/
theorem withPlus_withoutPlus {parts : List SumPart}
    (legible : ∀ part ∈ parts, part.Legible) :
    Text.withPlus (Text.withoutPlus (parts.flatMap text)) =
      parts.flatMap text := by
  cases parts with
  | nil => rfl
  | cons part rest =>
      obtain ⟨here, -⟩ := List.forall_mem_cons.1 legible
      obtain ⟨first, others, split⟩ :=
        List.exists_cons_of_ne_nil here.nonempty
      have noSign : isSign first = false :=
        here.signless first (by simp [split])
      have noMinus : first ≠ 0x2d := by
        rintro rfl
        cases noSign
      cases negative : part.negative <;>
        simp [text, sign, negative, split, Text.withPlus,
          Text.withoutPlus, noMinus]

/-- A number is written with its sign, though without a plus sign. -/
theorem withoutPlus_ofBase (base : Int64) :
    Text.withoutPlus (ofBase base).text = Text.ofInt base.toInt := by
  have zero : (0 : Int64).toInt = 0 := rfl
  rw [Text.ofInt_eq, text, sign, ofBase]
  simp only [Int64.lt_iff_toInt_lt, zero, decide_eq_true_eq]
  split <;> rfl

/-- So is a term at the front; elsewhere it has its plus sign. -/
theorem multipleText_append (isFirst : Bool) {label : Text}
    {factor : Int64} (nonzero : factor ≠ 0) :
    SymInt.multipleText isFirst factor ++ label =
      if isFirst then Text.withoutPlus (ofTerm (label, factor)).text
      else (ofTerm (label, factor)).text := by
  have zero : (0 : Int64).toInt = 0 := rfl
  by_cases one : factor = 1
  · subst one
    cases isFirst <;> rfl
  by_cases minusOne : factor = -1
  · subst minusOne
    cases isFirst <;> rfl
  have unequal : factor.toInt ≠ 0 := fun same =>
    nonzero (Int64.toInt_inj.1 (same.trans zero.symm))
  simp only [SymInt.multipleText, one, minusOne, if_false, false_or,
    Text.ofInt_eq, text, sign, ofTerm, Int64.lt_iff_toInt_lt, zero,
    decide_eq_true_eq]
  rcases Int.lt_or_gt_of_ne unequal with negative | positive
  · have notPositive : ¬ 0 < factor.toInt := by omega
    cases isFirst <;> simp [negative, notPositive, Text.withoutPlus]
  · have notNegative : ¬ factor.toInt < 0 := by omega
    cases isFirst <;> simp [positive, notNegative, Text.withoutPlus]

end SumPart

namespace SymInt

open SumPart (ofTerm ofBase)

variable {value left right : SymInt}

/-- The part for the base, which is left out if it is 0 after some terms. -/
def baseParts (value : SymInt) : List SumPart :=
  if value.base = 0 ∧ value.terms ≠ [] then [] else [ofBase value.base]

/-- The parts of the sum that a symbolic integer is written as. -/
def parts (value : SymInt) : List SumPart :=
  value.terms.map ofTerm ++ value.baseParts

/-- The labels are words, whether they count or not. -/
def InWords (value : SymInt) : Prop :=
  ∀ label ∈ value.labels, Token.isWord label = true

theorem terms_ne_zero : ∀ term ∈ value.terms, term.2 ≠ 0 := by
  rintro ⟨label, factor⟩ member
  exact (mem_terms_iff.1 member).1

theorem InWords.isWord (words : value.InWords) :
    ∀ term ∈ value.terms, Token.isWord term.1 = true := by
  rintro ⟨label, factor⟩ member
  obtain ⟨nonzero, same⟩ := mem_terms_iff.1 member
  exact words label (mem_labels_of_coefficient (same ▸ nonzero))

theorem InWords.legible (words : value.InWords) :
    ∀ part ∈ value.parts, part.Legible := by
  intro part member
  rcases List.mem_append.1 member with isTerm | isBase
  · obtain ⟨⟨label, factor⟩, inTerms, rfl⟩ := List.mem_map.1 isTerm
    exact SumPart.legible_ofTerm (words.isWord _ inTerms)
  · rw [baseParts] at isBase
    split at isBase
    · cases isBase
    · rw [List.mem_singleton.1 isBase]
      exact SumPart.legible_ofBase value.base

/-- After other terms, terms are written one after the other. -/
theorem termsText_false {terms : List (Text × Int64)}
    (nonzero : ∀ term ∈ terms, term.2 ≠ 0) :
    termsText false terms = (terms.map ofTerm).flatMap SumPart.text := by
  induction terms with
  | nil => rfl
  | cons term rest inductionHypothesis =>
      obtain ⟨here, others⟩ := List.forall_mem_cons.1 nonzero
      simp only [termsText, Bool.false_and, List.map_cons,
        List.flatMap_cons, SumPart.multipleText_append false here,
        inductionHypothesis others, Bool.false_eq_true, if_false]

/-- At the front of a sum they lack a plus sign. -/
theorem termsText_true {terms : List (Text × Int64)}
    (nonzero : ∀ term ∈ terms, term.2 ≠ 0)
    (words : ∀ term ∈ terms, Token.isWord term.1 = true) :
    termsText true terms =
      Text.withoutPlus ((terms.map ofTerm).flatMap SumPart.text) := by
  cases terms with
  | nil => rfl
  | cons term rest =>
      obtain ⟨here, others⟩ := List.forall_mem_cons.1 nonzero
      obtain ⟨first, letters, split, -⟩ :=
        Token.exists_cons_of_isWord (words term List.mem_cons_self)
      have written :
          (multipleText true term.2 ++ term.1).isEmpty = false := by
        simp [split]
      simp only [termsText, written, Bool.and_false, List.map_cons,
        List.flatMap_cons, termsText_false others]
      rw [SumPart.multipleText_append true here, if_pos rfl]
      exact (Text.withoutPlus_append (List.cons_ne_nil _ _) _).symm

theorem termsText_eq_nil_iff {isFirst : Bool}
    {terms : List (Text × Int64)}
    (words : ∀ term ∈ terms, Token.isWord term.1 = true) :
    termsText isFirst terms = [] ↔ terms = [] := by
  cases terms with
  | nil => simp [termsText]
  | cons term rest =>
      obtain ⟨first, letters, split, -⟩ :=
        Token.exists_cons_of_isWord (words term List.mem_cons_self)
      simp [termsText, split]

/-- The text consists of the parts, less a plus sign at the front. -/
theorem InWords.text_eq (words : value.InWords) :
    value.text =
      Text.withoutPlus (value.parts.flatMap SumPart.text) := by
  have zero : (0 : Int64).toInt = 0 := rfl
  simp only [text, termsText_eq_nil_iff words.isWord]
  rw [parts, baseParts, termsText_true terms_ne_zero words.isWord,
    List.flatMap_append]
  cases someTerms : value.terms with
  | nil => simp [SumPart.withoutPlus_ofBase]
  | cons term rest =>
      simp only [reduceCtorEq, if_false, ne_eq, not_false_eq_true, and_true,
        Int64.lt_iff_toInt_lt, zero]
      rw [Text.withoutPlus_append (by simp [SumPart.text])]
      by_cases none : value.base = 0
      · simp [none]
      have unequal : value.base.toInt ≠ 0 := fun same =>
        none (Int64.toInt_inj.1 (same.trans zero.symm))
      rw [if_neg none]
      rcases Int.lt_or_gt_of_ne unequal with negative | positive
      · have notPositive : ¬ 0 < value.base.toInt := by omega
        simp [negative, notPositive, Text.ofInt_eq, SumPart.text,
          SumPart.sign, ofBase, Int64.lt_iff_toInt_lt, zero]
      · have notNegative : ¬ value.base.toInt < 0 := by omega
        simp [positive, notNegative, Text.ofInt_eq, SumPart.text,
          SumPart.sign, ofBase, Int64.lt_iff_toInt_lt, zero]

theorem InWords.ofTerm_mem_parts_iff (words : value.InWords)
    {label : Text} {factor : Int64} (isWord : Token.isWord label = true) :
    ofTerm (label, factor) ∈ value.parts ↔
      (label, factor) ∈ value.terms := by
  constructor
  · intro member
    rcases List.mem_append.1 member with isTerm | isBase
    · obtain ⟨term, inTerms, same⟩ := List.mem_map.1 isTerm
      rwa [← SumPart.ofTerm_inj (words.isWord term inTerms) isWord same]
    · -- no term is a number
      have label := @SumPart.isNumber_ofTerm _ factor isWord
      rw [baseParts] at isBase
      split at isBase
      · cases isBase
      · rw [List.mem_singleton.1 isBase, SumPart.isNumber_ofBase] at label
        cases label
  · intro member
    exact List.mem_append_left _ (List.mem_map_of_mem member)

theorem InWords.ofBase_mem_parts_iff (words : value.InWords)
    {number : Int64} (nonzero : number ≠ 0) :
    ofBase number ∈ value.parts ↔ value.base = number := by
  constructor
  · intro member
    rcases List.mem_append.1 member with isTerm | isBase
    · -- no number is a term
      obtain ⟨⟨label, factor⟩, inTerms, same⟩ := List.mem_map.1 isTerm
      have label := @SumPart.isNumber_ofTerm _ factor
        (words.isWord _ inTerms)
      rw [same, SumPart.isNumber_ofBase] at label
      cases label
    · rw [baseParts] at isBase
      split at isBase
      · cases isBase
      · exact (SumPart.ofBase_inj (List.mem_singleton.1 isBase)).symm
  · rintro rfl
    simp [parts, baseParts, nonzero]

/-- The terms are the nonzero coefficients. -/
theorem terms_eq_of_coefficient
    (same : ∀ label, left.coefficient label = right.coefficient label) :
    left.terms = right.terms := by
  have tables : left.coefficients.filter (· != 0) =
      right.coefficients.filter (· != 0) := by
    apply Table.ext_find?
    intro label
    have here := same label
    rw [coefficient, coefficient] at here
    rw [Table.find?_filter, Table.find?_filter]
    cases inLeft : left.coefficients.find? label <;>
      cases inRight : right.coefficients.find? label <;>
      simp_all [Option.filter]
  exact congrArg Table.entries tables

theorem base_eq_of_parts (words : left.InWords) (otherWords : right.InWords)
    (same : left.parts = right.parts) : left.base = right.base := by
  by_cases none : left.base = 0
  · by_cases otherNone : right.base = 0
    · rw [none, otherNone]
    · exact (words.ofBase_mem_parts_iff otherNone).1
        (same ▸ (otherWords.ofBase_mem_parts_iff otherNone).2 rfl)
  · exact ((otherWords.ofBase_mem_parts_iff none).1
      (same ▸ (words.ofBase_mem_parts_iff none).2 rfl)).symm

/-- A coefficient that is not 0 is one of the terms of the other value. -/
theorem coefficient_eq_of_parts (words : left.InWords)
    (otherWords : right.InWords) (same : left.parts = right.parts)
    {label : Text} (used : left.coefficient label ≠ 0) :
    left.coefficient label = right.coefficient label := by
  have inTerms := mem_terms_iff.2 ⟨used, rfl⟩
  have isWord := words.isWord _ inTerms
  have member := (words.ofTerm_mem_parts_iff isWord).2 inTerms
  rw [same, otherWords.ofTerm_mem_parts_iff isWord] at member
  exact (mem_terms_iff.1 member).2.symm

/--
A symbolic integer is known by its text: two of them are written alike just
if they have the same base and the same coefficients other than 0.
-/
theorem text_eq_text_iff
    (words : ∀ label ∈ left.labels, Token.isWord label = true)
    (otherWords : ∀ label ∈ right.labels, Token.isWord label = true) :
    left.text = right.text ↔
      left.base = right.base ∧
        ∀ label, left.coefficient label = right.coefficient label := by
  have written := InWords.text_eq words
  have otherWritten := InWords.text_eq otherWords
  constructor
  · intro same
    have flat := SumPart.withPlus_withoutPlus (InWords.legible words)
    rw [← written, same, otherWritten, SumPart.withPlus_withoutPlus
      (InWords.legible otherWords)] at flat
    have sameParts := (SumPart.eq_of_flatMap_text
      (InWords.legible otherWords) (InWords.legible words) flat).symm
    refine ⟨base_eq_of_parts words otherWords sameParts, fun label => ?_⟩
    by_cases used : left.coefficient label = 0
    · by_cases otherUsed : right.coefficient label = 0
      · rw [used, otherUsed]
      · exact (coefficient_eq_of_parts otherWords words sameParts.symm
          otherUsed).symm
    · exact coefficient_eq_of_parts words otherWords sameParts used
  · rintro ⟨bases, coefficients⟩
    rw [text, text, bases, terms_eq_of_coefficient coefficients]

/-- The lowest number, less three times one label, plus another. -/
def lowestSum : SymInt where
  base := Int64.minValue
  coefficients :=
    (Table.empty.insert (Text.ascii "low") (-3)).insert (Text.ascii "_1") 1

/-- The same sum with an entry for a label that does not count. -/
def lowestSumWithZero : SymInt where
  base := Int64.minValue
  coefficients := lowestSum.coefficients.insert (Text.ascii "Zero") 0

theorem text_lowestSumWithZero :
    lowestSumWithZero ≠ lowestSum ∧
      lowestSumWithZero.text = lowestSum.text ∧
      lowestSum.text = Text.ascii "_1-3*low-9223372036854775808" := by
  refine ⟨by decide +kernel, ?_, by decide +kernel⟩
  refine (text_eq_text_iff (by decide +kernel) (by decide +kernel)).2
    ⟨rfl, fun label => ?_⟩
  rw [coefficient, coefficient, lowestSumWithZero, Table.find?_insert]
  split
  · next same => rw [same]; decide +kernel
  · rfl

end SymInt

end FlatAsm
