import FlatAsm.Proofs.ParserOutput

/-!
# Runs of a parser

A parser can be asked for statement after statement, also after errors, and
it can be closed on the way.  Whatever a parser of a text hands out is of the
machine.

Asking until the end of the text or the first error gives one sequence of
items, and that is what `parse` collects.
-/

namespace FlatAsm

namespace Parser

/-- Before the first statement of a text. -/
def ofText (evaluator : Option Evaluator) (width : Width)
    (constants : Table Int64) (text : Text) : Parser :=
  ofStream width constants (tokenize evaluator text)

/-- What becomes of a parser by asking for statements and closing it. -/
inductive Reaches (origin : Parser) : Parser → Prop where
  | start : Reaches origin origin
  | next {parser : Parser} (earlier : Reaches origin parser) :
      Reaches origin parser.next.2
  | close {parser : Parser} (earlier : Reaches origin parser) :
      Reaches origin parser.close

/-- The parser hands out the item at some time, maybe after errors. -/
def Yields (origin : Parser) (item : Item) : Prop :=
  ∃ parser, Reaches origin parser ∧ parser.next.1 = .ok (some item)

theorem Reaches.yields {origin parser : Parser} {item : Item}
    (reached : Reaches origin parser)
    (given : parser.next.1.toOption = some (some item)) :
    origin.Yields item := by
  refine ⟨parser, reached, ?_⟩
  cases result : parser.next.1 with
  | error fault =>
      rw [result] at given
      cases given
  | ok found =>
      rw [result] at given
      cases given
      rfl

theorem start_ensures (started : Bool) :
    Parse.Ensures (fun _ => True) (start started) := by
  cases started with
  | true => exact Parse.pure_ensures trivial
  | false => exact Parse.advance_ensures

/-- A parser over tokens of the machine stays one. -/
theorem next_ofMachine {parser : Parser}
    (ofMachine : parser.cursor.OfMachine) :
    parser.next.2.cursor.OfMachine ∧
      parser.next.2.width = parser.width ∧
      ∀ item, parser.next.1 = .ok (some item) →
        item.OfMachine parser.width := by
  have step := Parse.bind_ensures (start_ensures parser.started)
    (fun _ _ => Parse.statement_ensures parser.width parser.constants)
    ofMachine
  unfold next
  dsimp only
  split
  · next found after result =>
    rw [result] at step
    refine ⟨step.1, rfl, ?_⟩
    rintro item ⟨⟩
    exact step.2 item rfl
  · next fault after result =>
    rw [result] at step
    refine ⟨step, rfl, ?_⟩
    rintro item ⟨⟩

theorem reaches_ofMachine {origin parser : Parser}
    (ofMachine : origin.cursor.OfMachine)
    (reached : Reaches origin parser) :
    parser.cursor.OfMachine ∧ parser.width = origin.width := by
  induction reached with
  | start => exact ⟨ofMachine, rfl⟩
  | next earlier inductionHypothesis =>
      obtain ⟨cursor, width, -⟩ := next_ofMachine inductionHypothesis.1
      exact ⟨cursor, width.trans inductionHypothesis.2⟩
  | close earlier inductionHypothesis =>
      obtain ⟨⟨current, _⟩, width⟩ := inductionHypothesis
      refine ⟨⟨current, ?_⟩, width⟩
      intro token member
      cases member

theorem ofText_ofMachine (evaluator : Option Evaluator) (width : Width)
    (constants : Table Int64) (text : Text) :
    (ofText evaluator width constants text).cursor.OfMachine :=
  ⟨trivial, tokenize_ofMachine evaluator text⟩

/-- Whatever the parser of a text hands out is of the machine. -/
theorem yields_ofMachine {evaluator : Option Evaluator} {width : Width}
    {constants : Table Int64} {text : Text} {item : Item}
    (yielded : (ofText evaluator width constants text).Yields item) :
    item.OfMachine width := by
  obtain ⟨parser, reached, given⟩ := yielded
  obtain ⟨cursor, sameWidth⟩ := reaches_ofMachine
    (ofText_ofMachine evaluator width constants text) reached
  have itemOfMachine := (next_ofMachine cursor).2.2 item given
  rw [sameWidth] at itemOfMachine
  exact itemOfMachine

/-! ## The sequence of items -/

/-- The items up to the end of the text or to the first error. -/
inductive Delivers : Parser → List Item → Option Error → Prop where
  | ended {parser : Parser} (done : parser.next.1 = .ok none) :
      Delivers parser [] none
  | failed {parser : Parser} {fault : Error}
      (failure : parser.next.1 = .error fault) :
      Delivers parser [] (some fault)
  | item {parser : Parser} {item : Item} {items : List Item}
      {fault : Option Error}
      (given : parser.next.1 = .ok (some item))
      (others : Delivers parser.next.2 items fault) :
      Delivers parser (item :: items) fault

/-- There is only one sequence of items. -/
theorem Delivers.unique {parser : Parser}
    {items items' : List Item} {fault fault' : Option Error}
    (first : Delivers parser items fault)
    (second : Delivers parser items' fault') :
    items = items' ∧ fault = fault' := by
  induction first generalizing items' fault' with
  | ended done =>
      cases second with
      | ended => exact ⟨rfl, rfl⟩
      | failed failure => cases done.symm.trans failure
      | item given => cases done.symm.trans given
  | failed failure =>
      cases second with
      | ended done => cases failure.symm.trans done
      | failed failure' =>
          rw [failure] at failure'
          cases failure'
          exact ⟨rfl, rfl⟩
      | item given => cases failure.symm.trans given
  | item given others inductionHypothesis =>
      cases second with
      | ended done => cases given.symm.trans done
      | failed failure => cases given.symm.trans failure
      | item given' others' =>
          rw [given] at given'
          cases given'
          obtain ⟨sameItems, sameFault⟩ := inductionHypothesis others'
          exact ⟨congrArg _ sameItems, sameFault⟩

theorem Delivers.congr {parser other : Parser} {items : List Item}
    {fault : Option Error} (same : parser.next = other.next)
    (delivered : Delivers parser items fault) :
    Delivers other items fault := by
  cases delivered with
  | ended done => exact .ended (same ▸ done)
  | failed failure => exact .failed (same ▸ failure)
  | item given others =>
      rw [same] at given others
      exact .item given others

theorem next_started (width : Width) (constants : Table Int64)
    (cursor : Cursor) :
    (⟨width, constants, cursor, true⟩ : Parser).next =
      match Parse.statement width constants cursor with
      | .ok item after => (.ok item, ⟨width, constants, after, true⟩)
      | .error fault after =>
          (.error fault, ⟨width, constants, after, true⟩) :=
  rfl

theorem next_of_statement {parser : Parser} {result : Option Item}
    {after : Cursor}
    (found : (start parser.started >>= fun _ =>
      Parse.statement parser.width parser.constants) parser.cursor =
        .ok result after) :
    parser.next = (.ok result, ⟨parser.width, parser.constants, after,
      true⟩) := by
  unfold next
  dsimp only
  rw [found]

theorem exists_of_next {parser : Parser} {result : Option Item}
    (given : parser.next.1 = .ok result) :
    ∃ after, (start parser.started >>= fun _ =>
      Parse.statement parser.width parser.constants) parser.cursor =
        .ok result after := by
  unfold next at given
  dsimp only at given
  split at given
  · next after found =>
    cases given
    exact ⟨after, found⟩
  · cases given

/-- The first statement is asked for after the first token. -/
theorem next_ofStream (width : Width) (constants : Table Int64)
    {stream : TokenStream} {cursor : Cursor}
    (moved : Parse.advance (.ofStream stream) = .ok () cursor) :
    (ofStream width constants stream).next =
      (⟨width, constants, cursor, true⟩ : Parser).next := by
  have step :
      EStateM.bind Parse.advance
          (fun _ => Parse.statement width constants) (.ofStream stream) =
        Parse.statement width constants cursor := by
    unfold EStateM.bind
    rw [moved]
  change
    (match EStateM.bind Parse.advance
        (fun _ => Parse.statement width constants) (.ofStream stream) with
      | .ok item after => _
      | .error fault after => _) = _
  rw [step, next_started]
  rfl

theorem collectOnto_delivers (width : Width) (constants : Table Int64)
    (reversed : List Item) (cursor : Cursor) :
    ∃ items fault,
      Parsed.collectOnto width constants reversed cursor =
          ⟨reversed.reverse ++ items, fault⟩ ∧
        Delivers ⟨width, constants, cursor, true⟩ items fault := by
  fun_induction Parsed.collectOnto width constants reversed cursor with
  | case1 reversed cursor fault after failed =>
      refine ⟨[], some fault, by simp, .failed ?_⟩
      rw [next_started, failed]
  | case2 reversed cursor after ended =>
      refine ⟨[], none, by simp, .ended ?_⟩
      rw [next_started, ended]
  | case3 reversed cursor item after found inductionHypothesis =>
      obtain ⟨items, fault, collected, delivered⟩ := inductionHypothesis
      refine ⟨item :: items, fault, by simp [collected], .item ?_ ?_⟩
      · rw [next_started, found]
      · rw [next_started, found]
        exact delivered

/-- Collecting statements asks the parser for them one after the other. -/
theorem parse_delivers (width : Width) (constants : Table Int64)
    (stream : TokenStream) :
    Delivers (ofStream width constants stream)
      (parse width constants stream).items
      (parse width constants stream).fault := by
  unfold parse
  cases moved : Parse.advance (.ofStream stream) with
  | error fault cursor =>
      refine .failed ?_
      simp [next, ofStream, start, bind, EStateM.bind, moved]
  | ok _ cursor =>
      obtain ⟨items, fault, collected, delivered⟩ :=
        collectOnto_delivers width constants [] cursor
      dsimp only
      rw [collected]
      exact delivered.congr (next_ofStream width constants moved).symm

theorem Delivers.yields {origin parser : Parser} {items : List Item}
    {fault : Option Error} (reached : Reaches origin parser)
    (delivered : Delivers parser items fault) :
    ∀ item ∈ items, origin.Yields item := by
  induction delivered with
  | ended => simp
  | failed => simp
  | item given _ inductionHypothesis =>
      intro item member
      rcases List.mem_cons.1 member with rfl | later
      · exact ⟨_, reached, given⟩
      · exact inductionHypothesis reached.next item later

/-- All items of a text are of the machine. -/
theorem Delivers.ofMachine {evaluator : Option Evaluator} {width : Width}
    {constants : Table Int64} {text : Text} {items : List Item}
    {fault : Option Error}
    (delivered :
      Delivers (ofText evaluator width constants text) items fault) :
    ∀ item ∈ items, item.OfMachine width :=
  fun item member =>
    yields_ofMachine (delivered.yields .start item member)

end Parser

end FlatAsm
