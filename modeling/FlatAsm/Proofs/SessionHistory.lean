import FlatAsm.Formula.Run
import FlatAsm.Session
import FlatAsm.Proofs.TableLookup
import FlatAsm.Proofs.TwoPass
import Mathlib.Data.List.Nodup

/-!
# A session remembers its settings only

Work that is done in place and then given up leaves nothing behind: a session
that assembles a source gives the program that its settings alone determine,
and is as idle afterwards as it was before.

So whatever has been asked of a session, it answers like a new one with the
same settings, in which each name has been given its latest value.
-/

namespace FlatAsm

attribute [ext] Assembler

namespace Session

variable {language : FormulaLanguage}

/-! ## Work in place -/

/--
The work comes out like a computation of layouts.

It leaves the layout in hand, and it does not change the settings.
-/
def Follows (computed : Except Error Layout) (settings : Assembler) :
    EStateM.Result Error Session Unit → Prop
  | .ok _ after => computed = .ok after.layout ∧ after.settings = settings
  | .error fault after =>
      computed = .error fault ∧ after.settings = settings

theorem place_follows (item : Item) (session : Session) :
    Follows (session.layout.place session.settings.constants item)
      session.settings (place item session) := by
  cases item with
  | label line name =>
      simp only [place, declare, Layout.place]
      cases session.layout.declare session.settings.constants line name with
      | error fault => exact ⟨rfl, rfl⟩
      | ok layout => exact ⟨rfl, rfl⟩
  | instruction content =>
      simp only [place, append, Layout.place, Layout.append]
      cases content.encode with
      | error fault => exact ⟨rfl, rfl⟩
      | ok code =>
          simp only [layout]
          cases (session.image.getD .empty).emit code content.line with
          | error reason => exact ⟨rfl, rfl⟩
          | ok image => exact ⟨rfl, rfl⟩

theorem placeAll_eq (parser : Parser) (session : Session) :
    placeAll parser session =
      match parser.next.1 with
      | .error fault => .error fault session
      | .ok none => .ok () session
      | .ok (some item) =>
          match place item session with
          | .error fault session' => .error fault session'
          | .ok _ session' => placeAll parser.next.2 session' := by
  rw [placeAll]
  rcases parser.next with ⟨_ | _ | item, after⟩ <;> rfl

/-- A layout, unless there is an error after it. -/
def unlessFailed (layout : Layout) : Option Error → Except Error Layout
  | some fault => .error fault
  | none => .ok layout

/-- Placing what a parser hands out is a fold over its items. -/
theorem placeAll_follows {parser : Parser} {items : List Item}
    {fault : Option Error} (delivered : parser.Delivers items fault)
    (session : Session) :
    Follows
      (items.foldlM (Layout.place session.settings.constants)
        session.layout >>= (unlessFailed · fault))
      session.settings (placeAll parser session) := by
  induction delivered generalizing session with
  | ended done =>
      rw [placeAll_eq, done]
      exact ⟨rfl, rfl⟩
  | failed failure =>
      rw [placeAll_eq, failure]
      exact ⟨rfl, rfl⟩
  | @item parser item items fault given others inductionHypothesis =>
      have first := place_follows item session
      rw [placeAll_eq, given, List.foldlM_cons]
      dsimp only
      cases placed : place item session with
      | error fault session' =>
          rw [placed] at first
          obtain ⟨failed, same⟩ := first
          rw [failed]
          exact ⟨rfl, same⟩
      | ok _ session' =>
          rw [placed] at first
          obtain ⟨laid, same⟩ := first
          have rest := inductionHypothesis session'
          rw [same] at rest
          rw [laid]
          exact rest

/-- Patching in place and reading the program off finishes a layout. -/
theorem relocate_finishes (session : Session) :
    match relocate session with
    | .ok _ after =>
        session.layout.finish = .ok ⟨after.layout.image.data,
            after.layout.image.symbols, after.layout.statements.toList⟩ ∧
          after.settings = session.settings
    | .error fault after =>
        session.layout.finish = .error fault ∧
          after.settings = session.settings := by
  unfold relocate Layout.finish
  rcases session.layout.image.applyRelocations with
    reason | ⟨image, _ | fault⟩
  · exact ⟨rfl, rfl⟩
  · exact ⟨rfl, rfl⟩
  · exact ⟨rfl, rfl⟩

theorem assembleParsed_eq (constants : Table Int64) (parsed : Parsed) :
    assembleParsed constants parsed =
      (Layout.ofItems constants parsed.items >>=
        (unlessFailed · parsed.fault)) >>= Layout.finish := by
  unfold assembleParsed
  cases Layout.ofItems constants parsed.items with
  | error fault => rfl
  | ok layout => cases parsed.fault <;> rfl

/-- Building a program in place does what the settings say. -/
theorem build_follows (text : Text) (session : Session) :
    match build language text session with
    | .ok program after =>
        assembleParsed session.settings.constants
            (session.settings.parsed language text) = .ok program ∧
          after.settings = session.settings
    | .error fault after =>
        assembleParsed session.settings.constants
            (session.settings.parsed language text) = .error fault ∧
          after.settings = session.settings := by
  have steps : build language text session =
      (do
        placeAll (session.settings.parser language text)
        relocate
        let layout := (← get).layout
        return (⟨layout.image.data, layout.image.symbols,
          layout.statements.toList⟩ : Program) : Work Program)
      (session.hold .empty) := rfl
  have placed : Follows
      (Layout.ofItems session.settings.constants
        (session.settings.parsed language text).items >>=
          (unlessFailed · (session.settings.parsed language text).fault))
      session.settings
      (placeAll (session.settings.parser language text)
        (session.hold .empty)) :=
    placeAll_follows (session.settings.parser_delivers language text)
      (session.hold .empty)
  rw [assembleParsed_eq]
  simp only [steps, bind, EStateM.bind]
  cases laid : placeAll (session.settings.parser language text)
      (session.hold .empty) with
  | error fault after =>
      rw [laid] at placed
      obtain ⟨failed, same⟩ := placed
      simp only [bind] at failed
      rw [failed]
      exact ⟨rfl, same⟩
  | ok _ middle =>
      rw [laid] at placed
      obtain ⟨layout, same⟩ := placed
      simp only [bind] at layout
      have finished := relocate_finishes middle
      rw [same] at finished
      rw [layout]
      dsimp only
      cases patched : relocate middle with
      | error fault after =>
          rw [patched] at finished
          exact finished
      | ok _ after =>
          rw [patched] at finished
          exact finished

/-! ## Idle sessions -/

/-- A session without work in hand. -/
def ofSettings (settings : Assembler) : Session :=
  ⟨settings, none, #[]⟩

@[simp]
theorem settings_ofSettings (settings : Assembler) :
    (ofSettings settings).settings = settings :=
  rfl

theorem release_eq_ofSettings (session : Session) :
    session.release = ofSettings session.settings :=
  rfl

/-- An idle session assembles as its settings say, and is idle again. -/
theorem assembleWith_ofSettings (settings : Assembler)
    (source : Except Text Text) :
    assembleWith language source (ofSettings settings) =
      match settings.assembleWith language source with
      | .ok program => .ok program (ofSettings settings)
      | .error fault => .error fault (ofSettings settings) := by
  unfold assembleWith Assembler.assembleWith
  cases supported : settings.defaultWidth.isSupported with
  | false => simp [supported]
  | true =>
    simp only [settings_ofSettings, supported, Bool.not_true,
      Bool.false_eq_true, if_false]
    cases source with
    | error reason => rfl
    | ok text =>
        have built := @build_follows language text (ofSettings settings)
        have text_eq : assembleText
            (language settings.defaultWidth settings.constants)
            settings.defaultWidth settings.constants text =
          assembleParsed settings.constants
            (settings.parsed language text) := rfl
        simp only [settings_ofSettings, ← text_eq] at built
        dsimp only
        cases result : build language text (ofSettings settings) with
        | ok program after =>
            rw [result] at built
            rw [built.1]
            dsimp only
            rw [release_eq_ofSettings, built.2]
        | error fault after =>
            rw [result] at built
            rw [built.1]
            dsimp only
            rw [release_eq_ofSettings, built.2]

/-- What a step changes in the settings. -/
def settingsAfter (settings : Assembler) : Step → Assembler
  | .setWidth width => settings.setWidth width
  | .predefine name value =>
      if Assembler.isDefinable name then
        { settings with constants := settings.constants.insert name value }
      else settings
  | .assemble _ => settings

/-- What a step answers under given settings. -/
def answer (language : FormulaLanguage) (settings : Assembler) :
    Step → Answer
  | .setWidth _ => .ok none
  | .predefine name _ =>
      if Assembler.isDefinable name then .ok none
      else .error (.predefine name)
  | .assemble source =>
      (settings.assembleWith language source).map some

/-- An idle session goes from settings to settings. -/
theorem step_ofSettings (settings : Assembler) (request : Step) :
    (ofSettings settings).step language request =
      (answer language settings request,
        ofSettings (settingsAfter settings request)) := by
  cases request with
  | setWidth width => rfl
  | predefine name value =>
      simp only [step, Assembler.predefine, answer, settingsAfter,
        settings_ofSettings]
      by_cases definable : Assembler.isDefinable name = true
      · simp only [if_pos definable]
        rfl
      · simp only [if_neg definable]
  | assemble source =>
      simp only [step, assembleWith_ofSettings, answer, settingsAfter]
      cases settings.assembleWith language source <;> rfl

/-- A failed step leaves the settings as they are. -/
theorem settingsAfter_of_error {settings : Assembler} {request : Step}
    {fault : Error}
    (failed : answer language settings request = .error fault) :
    settingsAfter settings request = settings := by
  cases request with
  | setWidth width => cases failed
  | predefine name value =>
      simp only [answer] at failed
      split at failed
      · cases failed
      · next undefinable => rw [settingsAfter, if_neg undefinable]
  | assemble source => rfl

/-! ## Runs -/

/-- The answers to steps, each under the settings of its time. -/
def answers (language : FormulaLanguage) (settings : Assembler) :
    List Step → List Answer
  | [] => []
  | first :: rest =>
      answer language settings first ::
        answers language (settingsAfter settings first) rest

theorem run_ofSettings (settings : Assembler) (steps : List Step) :
    (ofSettings settings).run language steps =
      (answers language settings steps,
        ofSettings (steps.foldl settingsAfter settings)) := by
  induction steps generalizing settings with
  | nil => rfl
  | cons first rest inductionHypothesis =>
      simp only [run, step_ofSettings, inductionHypothesis, answers,
        List.foldl_cons]

theorem answers_append (settings : Assembler) (front back : List Step) :
    answers language settings (front ++ back) =
      answers language settings front ++
        answers language (front.foldl settingsAfter settings) back := by
  induction front generalizing settings with
  | nil => rfl
  | cons first rest inductionHypothesis =>
      simp only [List.cons_append, answers, inductionHypothesis,
        List.foldl_cons]

theorem length_answers (settings : Assembler) (steps : List Step) :
    (answers language settings steps).length = steps.length := by
  induction steps generalizing settings with
  | nil => rfl
  | cons first rest inductionHypothesis =>
      simp only [answers, List.length_cons, inductionHypothesis]

/-! ## Settings -/

/-- The width that a step sets. -/
def Step.width? : Step → Option Width
  | .setWidth width => some width
  | _ => none

/-- The width that has been set last; there is none at the beginning. -/
def latestWidth (steps : List Step) : Width :=
  (steps.filterMap Step.width?).getLast?.getD ⟨0⟩

/-- The definitions that have been accepted, in their order. -/
def accepted (steps : List Step) (answers : List Answer) :
    List (Text × Int64) :=
  (steps.zip answers).filterMap fun
    | (.predefine name value, .ok _) => some (name, value)
    | _ => none

/-- Each accepted name stands among the definitions once, with the value that
was accepted last. -/
structure Settles (accepted definitions : List (Text × Int64)) : Prop where
  once : (definitions.map Prod.fst).Nodup
  latest : ∀ name value, (name, value) ∈ definitions ↔
    accepted.reverse.lookup name = some value

theorem foldl_settingsAfter_width (settings : Assembler)
    (steps : List Step) :
    (steps.foldl settingsAfter settings).width =
      (steps.filterMap Step.width?).getLast?.getD settings.width := by
  induction steps generalizing settings with
  | nil => rfl
  | cons first rest inductionHypothesis =>
      rw [List.foldl_cons, inductionHypothesis, List.filterMap_cons]
      cases first with
      | setWidth width =>
          simp only [Step.width?, List.getLast?_cons]
          rfl
      | predefine name value =>
          simp only [Step.width?, settingsAfter]
          split <;> rfl
      | assemble source => rfl

/-- What a step adds to the definitions that have been accepted. -/
def Step.definition? : Step → Option (Text × Int64)
  | .predefine name value =>
      if Assembler.isDefinable name then some (name, value) else none
  | _ => none

/-- Definitions are accepted if source text can refer to their names. -/
theorem accepted_answers (settings : Assembler) (steps : List Step) :
    accepted steps (answers language settings steps) =
      steps.filterMap Step.definition? := by
  induction steps generalizing settings with
  | nil => rfl
  | cons first rest inductionHypothesis =>
      have later := inductionHypothesis (settingsAfter settings first)
      unfold accepted at later ⊢
      rw [answers, List.zip_cons_cons, List.filterMap_cons, later,
        List.filterMap_cons]
      cases first with
      | setWidth width => rfl
      | assemble source => rfl
      | predefine name value =>
          by_cases definable : Assembler.isDefinable name = true
          · simp only [answer, Step.definition?, if_pos definable]
          · simp only [answer, Step.definition?, if_neg definable]

/-- The value of a name is the one that was accepted last. -/
theorem foldl_settingsAfter_find? (settings : Assembler)
    (steps : List Step) (name : Text) :
    (steps.foldl settingsAfter settings).constants.find? name =
      ((steps.filterMap Step.definition?).reverse.lookup name).or
        (settings.constants.find? name) := by
  induction steps generalizing settings with
  | nil => rfl
  | cons first rest inductionHypothesis =>
      rw [List.foldl_cons, inductionHypothesis, List.filterMap_cons]
      cases first with
      | setWidth width => rfl
      | assemble source => rfl
      | predefine other value =>
          by_cases definable : Assembler.isDefinable other = true
          · simp only [settingsAfter, Step.definition?, if_pos definable,
              Table.find?_insert, List.reverse_cons, List.lookup_append,
              Option.or_assoc]
            congr 1
            rw [Table.lookup_cons_eq]
            split <;> rfl
          · simp only [settingsAfter, Step.definition?, if_neg definable]

/-- Among definitions of different names, each is found. -/
theorem lookup_eq_some_iff_mem {definitions : List (Text × Int64)}
    (once : (definitions.map Prod.fst).Nodup) (name : Text)
    (value : Int64) :
    definitions.lookup name = some value ↔ (name, value) ∈ definitions := by
  induction definitions with
  | nil => simp
  | cons first rest inductionHypothesis =>
      rw [List.map_cons, List.nodup_cons] at once
      have others := inductionHypothesis once.2
      rcases first with ⟨other, given⟩
      rw [Table.lookup_cons_eq]
      by_cases same : name = other
      · subst same
        have absent : (name, value) ∉ rest := fun member =>
          once.1 (List.mem_map.2 ⟨_, member, rfl⟩)
        simp [absent, eq_comm]
      · simp [same, others]

/-- A name is accepted only if source text can refer to it. -/
theorem isDefinable_of_mem {steps : List Step} {name : Text}
    {value : Int64}
    (member : (name, value) ∈ steps.filterMap Step.definition?) :
    Assembler.isDefinable name = true := by
  obtain ⟨request, -, defined⟩ := List.mem_filterMap.1 member
  cases request with
  | setWidth width => cases defined
  | assemble source => cases defined
  | predefine other given =>
      simp only [Step.definition?] at defined
      split at defined
      · next definable =>
        cases defined
        exact definable
      · cases defined

/-- The steps that give a new session its settings. -/
def setUp (width : Width) (definitions : List (Text × Int64)) :
    List Step :=
  .setWidth width :: definitions.map fun definition =>
    .predefine definition.1 definition.2

section

variable {width : Width} {definitions : List (Text × Int64)}
  (definable : ∀ definition ∈ definitions,
    Assembler.isDefinable definition.1 = true)

include definable

theorem filterMap_setUp :
    (setUp width definitions).filterMap Step.definition? = definitions := by
  have each : definitions.filterMap (Step.definition? ∘ fun definition =>
      .predefine definition.1 definition.2) =
        definitions.filterMap some := by
    refine List.filterMap_congr ?_
    intro definition member
    simp [Step.definition?, definable definition member]
  rw [setUp, List.filterMap_cons, List.filterMap_map, each,
    List.filterMap_some]
  rfl

/-- Setting a session up does not fail. -/
theorem answers_setUp (settings : Assembler) :
    answers language settings (setUp width definitions) =
      List.replicate (definitions.length + 1) (.ok none) := by
  rw [setUp, answers, List.replicate_succ]
  congr 1
  generalize settingsAfter settings (.setWidth width) = settings'
  induction definitions generalizing settings' with
  | nil => rfl
  | cons first rest inductionHypothesis =>
      obtain ⟨here, later⟩ := List.forall_mem_cons.1 definable
      rw [List.map_cons, answers, inductionHypothesis later,
        List.length_cons, List.replicate_succ, answer, if_pos here]

end

theorem latestWidth_setUp (width : Width)
    (definitions : List (Text × Int64)) :
    latestWidth (setUp width definitions) = width := by
  have none : (definitions.map fun definition => Step.predefine
      definition.1 definition.2).filterMap Step.width? = [] := by
    simp [Step.width?]
  rw [latestWidth, setUp, List.filterMap_cons, none]
  rfl

theorem Settles.definable {steps : List Step}
    {definitions : List (Text × Int64)}
    (settles : Settles (steps.filterMap Step.definition?) definitions) :
    ∀ definition ∈ definitions,
      Assembler.isDefinable definition.1 = true := by
  rintro ⟨name, value⟩ member
  have found := (settles.latest name value).1 member
  obtain ⟨front, back, entries, -⟩ := List.lookup_eq_some_iff.1 found
  refine @isDefinable_of_mem steps name value ?_
  rw [← List.mem_reverse, entries]
  simp

/-- A new session can be given the settings of any other one. -/
theorem foldl_setUp {steps : List Step} {definitions : List (Text × Int64)}
    (settles : Settles (steps.filterMap Step.definition?) definitions) :
    (setUp (latestWidth steps) definitions).foldl settingsAfter .initial =
      steps.foldl settingsAfter .initial := by
  have once : (definitions.reverse.map Prod.fst).Nodup := by
    rw [List.map_reverse, List.nodup_reverse]
    exact settles.once
  have width :
      ((setUp (latestWidth steps) definitions).foldl settingsAfter
        .initial).width = (steps.foldl settingsAfter .initial).width := by
    rw [foldl_settingsAfter_width, foldl_settingsAfter_width]
    exact latestWidth_setUp (latestWidth steps) definitions
  have constants :
      ((setUp (latestWidth steps) definitions).foldl settingsAfter
        .initial).constants =
          (steps.foldl settingsAfter .initial).constants := by
    refine Table.ext_find? fun name => ?_
    rw [foldl_settingsAfter_find?, foldl_settingsAfter_find?,
      filterMap_setUp settles.definable]
    congr 1
    refine Option.ext fun value => ?_
    rw [lookup_eq_some_iff_mem once, List.mem_reverse,
      settles.latest name value]
  exact Assembler.ext width constants

theorem keys_nodup (table : Table Int64) :
    (table.entries.map Prod.fst).Nodup := by
  refine List.pairwise_map.2 (table.sorted.imp ?_)
  intro first second before equal
  exact List.lt_irrefl _ (equal ▸ before)

/-- The table of a session settles what has been accepted. -/
theorem settles_entries (steps : List Step) :
    Settles (steps.filterMap Step.definition?)
      (steps.foldl settingsAfter .initial).constants.entries := by
  refine ⟨keys_nodup _, fun name value => ?_⟩
  rw [Table.mem_entries_iff, foldl_settingsAfter_find?]
  have empty : Assembler.initial.constants.find? name = none :=
    Table.find?_empty name
  rw [empty, Option.or_none]

/--
What a session does after some steps.

All that it knows of them are the width that was set last and the latest
value of each name.
-/
structure RemembersSettings (language : FormulaLanguage)
    (before : List Step) : Prop where
  idle : (initial.run language before).2.image = none ∧
    (initial.run language before).2.statements = #[]
  /-- A failed step changes no settings. -/
  failed : ∀ request fault,
    ((initial.run language before).2.step language request).1 =
        .error fault →
      ((initial.run language before).2.step language request).2.settings =
        (initial.run language before).2.settings
  settled : ∃ definitions,
    Settles (accepted before (initial.run language before).1) definitions
  /-- A source is assembled as in a new session, which has been given the
  width and, in any order, the values of the names. -/
  asNew : ∀ definitions,
    Settles (accepted before (initial.run language before).1)
        definitions →
      ∀ source after, ∃ outcome : Except Error Program,
        (initial.run language
            (before ++ .assemble source :: after)).1[before.length]? =
          some (outcome.map some) ∧
        (initial.run language (setUp (latestWidth before) definitions ++
            [.assemble source])).1 =
          List.replicate (definitions.length + 1) (.ok none) ++
            [outcome.map some]

/-- A session has no memory but its settings. -/
theorem run_remembersSettings (language : FormulaLanguage)
    (before : List Step) : RemembersSettings language before := by
  have new : initial = ofSettings .initial := rfl
  constructor
  case idle =>
    rw [new, run_ofSettings]
    exact ⟨rfl, rfl⟩
  case failed =>
    rw [new, run_ofSettings]
    intro request fault failed
    dsimp only at failed ⊢
    rw [step_ofSettings] at failed ⊢
    exact settingsAfter_of_error failed
  case settled =>
    rw [new, run_ofSettings, accepted_answers]
    exact ⟨_, settles_entries before⟩
  case asNew =>
    rw [new, run_ofSettings, accepted_answers]
    intro definitions settles source after
    refine ⟨(before.foldl settingsAfter .initial).assembleWith language
      source, ?_, ?_⟩
    · rw [run_ofSettings, answers_append, ← @length_answers language
        .initial before, List.getElem?_append_right (Nat.le_refl _),
        Nat.sub_self]
      rfl
    · rw [run_ofSettings, answers_append, answers_setUp settles.definable,
        foldl_setUp settles]
      rfl

/-- Steps some of which fail, and of which one gives a name a new value. -/
def redefinition : List Step :=
  [.predefine (Text.ascii "x") 1, .assemble (.ok (Text.ascii "jmp end")),
    .setWidth .word, .predefine (Text.ascii "ax") 7,
    .predefine (Text.ascii "y") 3, .assemble (.error (Text.ascii "lost")),
    .predefine (Text.ascii "x") 2]

/-- The old value of a name plays no role, nor does the order of names. -/
theorem redefinition_asNew :
    Settles
        (accepted redefinition
          (initial.run Formula.evaluate redefinition).1)
        [(Text.ascii "y", 3), (Text.ascii "x", 2)] ∧
      ∃ outcome : Except Error Program,
        (initial.run Formula.evaluate (redefinition ++
            [.assemble (.ok (Text.ascii "data x, $(y + WIDTH)"))])).1[7]? =
          some (outcome.map some) ∧
        (initial.run Formula.evaluate
            [.setWidth .word, .predefine (Text.ascii "y") 3,
              .predefine (Text.ascii "x") 2,
              .assemble (.ok (Text.ascii "data x, $(y + WIDTH)"))]).1 =
          [.ok none, .ok none, .ok none, outcome.map some] := by
  have definitions :
      accepted redefinition (initial.run Formula.evaluate redefinition).1 =
        [(Text.ascii "x", 1), (Text.ascii "y", 3), (Text.ascii "x", 2)] := by
    rw [show initial = ofSettings .initial from rfl, run_ofSettings,
      accepted_answers]
    decide +kernel
  have settles : Settles
      (accepted redefinition (initial.run Formula.evaluate redefinition).1)
      [(Text.ascii "y", 3), (Text.ascii "x", 2)] := by
    rw [definitions]
    refine ⟨by decide, fun name value => ?_⟩
    have different : Text.ascii "x" ≠ Text.ascii "y" := by decide
    simp only [List.reverse_cons, List.reverse_nil, List.nil_append,
      List.cons_append, Table.lookup_cons_eq]
    by_cases isX : name = Text.ascii "x"
    · simp [isX, different, eq_comm]
    · by_cases isY : name = Text.ascii "y"
      · simp [isY, different, different.symm, eq_comm]
      · simp [isX, isY]
  exact ⟨settles, (run_remembersSettings Formula.evaluate
    redefinition).asNew _ settles (.ok (Text.ascii "data x, $(y + WIDTH)"))
    []⟩

end Session

end FlatAsm
