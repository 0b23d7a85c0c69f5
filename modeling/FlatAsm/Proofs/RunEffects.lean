import FlatAsm.Formula.Run
import FlatAsm.Proofs.RequestedAssembler

/-!
# Effects of a run

A run of the command does its work in a fixed order: it settles its options,
reads the source, assembles it, shows a dump if asked for, and writes.  So
options that cannot be met keep it from reading anything, and whatever else
goes wrong keeps it from writing anything.  Where nothing goes wrong, it writes
the image of the program to one place.

A file is written as a whole or not at all, but standard output may break off
while the image is written to it.  That is the one way in which a run that
fails can leave something behind, and no file is touched then.
-/

namespace FlatAsm.CommandLine

/-! ## Actions in a world -/

namespace World

section

variable {ε α β : Type} {world after : World}
  {first : ExceptT ε (StateM World) α}
  {next : α → ExceptT ε (StateM World) β}

theorem perform_bind :
    world.perform (first >>= next) =
      match world.perform first with
      | (.ok value, after) => after.perform (next value)
      | (.error failure, after) => (.error failure, after) := by
  change (first >>= next).run.run world = _
  rw [ExceptT.run_bind, StateT.run_bind]
  change (world.perform first >>= _ : Id _) = _
  rcases world.perform first with ⟨failure | value, after⟩ <;> rfl

theorem perform_bind_of_ok {value : α}
    (done : world.perform first = (.ok value, after)) :
    world.perform (first >>= next) = after.perform (next value) := by
  rw [perform_bind, done]

theorem perform_bind_of_error {failure : ε}
    (failed : world.perform first = (.error failure, after)) :
    world.perform (first >>= next) = (.error failure, after) := by
  rw [perform_bind, failed]

/-- An operation of the system does not fail by itself. -/
theorem perform_lift_bind {operation : StateM World α} {value : α}
    (done : operation world = (value, after)) :
    world.perform (liftM operation >>= next) = after.perform (next value) := by
  refine perform_bind_of_ok ?_
  change (Except.ok (operation world).1, (operation world).2) = _
  rw [done]

theorem perform_except_bind {computed : Except ε α} {value : α}
    (done : computed = .ok value) :
    world.perform (liftM computed >>= next) = world.perform (next value) := by
  subst done
  exact perform_bind_of_ok rfl

theorem perform_except_bind_of_error {computed : Except ε α} {failure : ε}
    (failed : computed = .error failure) :
    world.perform (liftM computed >>= next) = (.error failure, world) := by
  subst failed
  exact perform_bind_of_error rfl

end

section

variable {ε α : Type} {world : World}

theorem unlessRefused_eq_ok_iff {access : Access} {fault : Text → ε}
    {granted : Except ε α} {value : α} :
    world.unlessRefused access fault granted = .ok value ↔
      world.refusals access = none ∧ granted = .ok value := by
  unfold unlessRefused
  cases world.refusals access <;> simp

/-- The source holds this text, and it can be read. -/
inductive Holds (world : World) : Text → Text → Prop where
  | input (allowed : world.refusals .input = none) :
      Holds world [0x2d] world.input
  | file {path text : Text} (named : path ≠ [0x2d])
      (allowed : world.refusals (.opened path) = none)
      (found : world.files.openForReading path = .ok (.file text)) :
      Holds world path text

/-- What reading a source gives. -/
def contents (world : World) (source : Text) :
    Except Failure (Except Text Text) :=
  if source = [0x2d] then
    .ok (world.unlessRefused .input id (.ok world.input))
  else
    readOpened source (world.unlessRefused (.opened source) .refused
      (world.files.openForReading source))

theorem readOpened_eq_ok_iff {source text : Text}
    {opened : Except FileFault Entry} :
    readOpened source opened = .ok (.ok text) ↔
      opened = .ok (.file text) := by
  unfold readOpened
  split <;> simp_all

theorem contents_eq_ok_iff {source text : Text} :
    world.contents source = .ok (.ok text) ↔ world.Holds source text := by
  constructor
  · intro read
    unfold contents at read
    split at read
    · next dash =>
      subst dash
      obtain ⟨allowed, given⟩ :=
        unlessRefused_eq_ok_iff.1 (Except.ok.inj read)
      cases given
      exact .input allowed
    · next named =>
      obtain ⟨allowed, found⟩ :=
        unlessRefused_eq_ok_iff.1 (readOpened_eq_ok_iff.1 read)
      exact .file named allowed found
  · rintro (allowed | ⟨named, allowed, found⟩)
    · rw [contents, if_pos rfl, unlessRefused_eq_ok_iff.2 ⟨allowed, rfl⟩]
    · rw [contents, if_neg named]
      exact readOpened_eq_ok_iff.2
        (unlessRefused_eq_ok_iff.2 ⟨allowed, found⟩)

end

/-- Standard output takes everything that it does not refuse as a whole. -/
def WritesWhole (world : World) : Prop :=
  world.interruption = none

instance (world : World) : Decidable world.WritesWhole :=
  inferInstanceAs (Decidable (world.interruption = none))

/-- What has been written, in order. -/
def writes (world : World) : List Access :=
  world.accesses.filter Access.isWriting

/-- Nothing has been written in the meantime. -/
structure Unwritten (before after : World) : Prop where
  output : after.output = before.output
  files : after.files = before.files
  writes : after.writes = before.writes

/-- An image has been written, and to one place only. -/
inductive Writes (output : Text) (image : Array UInt8)
    (before after : World) : Prop where
  | standard (dash : output = [0x2d])
      (appended : after.output = before.output ++ image.toList)
      (files : after.files = before.files)
      (once : after.writes = before.writes ++ [.output])
  | file (place : Place) (named : output ≠ [0x2d])
      (leads : before.files.resolve output = .ok place)
      (stored : after.files.entry place = .file image.toList)
      (others : ∀ other, other ≠ place →
        after.files.entry other = before.files.entry other)
      (kept : after.output = before.output)
      (once : after.writes = before.writes ++ [.stored output])

/-- Standard output has broken off, with part of an image written. -/
structure BreaksOff (output : Text) (image : Array UInt8)
    (before after : World) : Prop where
  dash : output = [0x2d]
  part : ∃ interruption, before.interruption = some interruption ∧
    after.output =
      before.output ++ image.toList.take interruption.taken
  files : after.files = before.files
  once : after.writes = before.writes ++ [.output]

section

variable {output : Text} {image : Array UInt8} {before middle after : World}

theorem BreaksOff.of_unwritten (unwritten : Unwritten before middle)
    (same : middle.interruption = before.interruption)
    (breaks : BreaksOff output image middle after) :
    BreaksOff output image before after := by
  obtain ⟨dash, part, files, once⟩ := breaks
  rw [same, unwritten.output] at part
  rw [unwritten.files] at files
  rw [unwritten.writes] at once
  exact ⟨dash, part, files, once⟩

theorem Writes.of_unwritten (unwritten : Unwritten before middle)
    (writes : Writes output image middle after) :
    Writes output image before after := by
  cases writes with
  | standard dash appended files once =>
      rw [unwritten.output] at appended
      rw [unwritten.files] at files
      rw [unwritten.writes] at once
      exact .standard dash appended files once
  | file place named leads stored others kept once =>
      rw [unwritten.files] at leads others
      rw [unwritten.output] at kept
      rw [unwritten.writes] at once
      exact .file place named leads stored others kept once

end

end World

/-! ## Writing -/

/-- An image can be written where options ask for it. -/
inductive Accepts (options : Options) (world : World) : Prop where
  | output (dash : options.output = [0x2d])
      (wanted : world.isTerminal = true → options.force = true)
      (allowed : world.refusals .output = none)
    (whole : world.WritesWhole)
  | file (place : Place) (named : options.output ≠ [0x2d])
      (allowed : world.refusals (.stored options.output) = none)
      (free : world.files.placeForWriting options.output = .ok place)

/-- A file is written at the place that its path leads to. -/
theorem resolve_of_placeForWriting {files : FileSystem} {path : Text}
    {place : Place} (free : files.placeForWriting path = .ok place) :
    files.resolve path = .ok place := by
  unfold FileSystem.placeForWriting at free
  split at free
  · obtain ⟨_, -, impossible⟩ := bind_eq_ok_iff.1 free
    cases impossible
  · obtain ⟨found, leads, entry⟩ := bind_eq_ok_iff.1 free
    split at entry
    · cases entry
    · cases entry
      exact leads
    · cases entry
      exact leads

theorem writes_of_append (world : World) (image : Array UInt8)
    {output : Text} (dash : output = [0x2d]) :
    World.Writes output image world (world.append image.toList) :=
  .standard dash rfl rfl (List.filter_append _ _)

theorem writes_of_store (world : World) (image : Array UInt8)
    {output : Text} {place : Place} (named : output ≠ [0x2d])
    (free : world.files.placeForWriting output = .ok place) :
    World.Writes output image world
      (world.store output (world.files.put place image.toList)) := by
  refine .file place named (resolve_of_placeForWriting free) ?_ ?_ rfl
    (List.filter_append _ _)
  · exact if_pos rfl
  · intro other different
    exact if_neg different

theorem notify_apply (world : World) (text : Text) :
    World.system.notify text world = ((), world.display text) :=
  rfl

theorem isTerminal_apply (world : World) :
    World.system.isTerminal world = (world.isTerminal, world) :=
  rfl

/-- Where an image can be written, it is. -/
theorem perform_deliver_of_accepts {options : Options} {world : World}
    (accepts : Accepts options world) (image : Array UInt8) :
    ∃ after, world.perform (deliver World.system options image) =
        (.ok (), after) ∧
      World.Writes options.output image world after ∧
      world.accesses <+: after.accesses := by
  cases accepts with
  | output dash wanted allowed whole =>
      have written : World.system.writeOutput image world =
          (.ok (), world.append image.toList) := by
        simp only [World.WritesWhole] at whole
        simp only [World.system, World.writeOutput, allowed, whole]
      have granted : ¬ (world.isTerminal && !options.force) = true := by
        simpa using wanted
      refine ⟨world.append image.toList, ?_, writes_of_append world image dash,
        List.prefix_append _ _⟩
      rw [deliver, if_pos dash,
        World.perform_lift_bind (isTerminal_apply world), if_neg granted,
        World.perform_lift_bind written]
      rfl
  | file place named allowed free =>
      have written : World.system.writeFile options.output image world =
          (.ok (), world.store options.output
            (world.files.put place image.toList)) := by
        simp only [World.system, World.unlessRefused, allowed,
          FileSystem.write, free]
        rfl
      refine ⟨_, ?_, writes_of_store world image named free,
        List.prefix_append _ _⟩
      rw [deliver, if_neg named, World.perform_lift_bind written]
      rfl

/-- A refusal and a path that leads nowhere keep a file from being written. -/
theorem write_of_refused {options : Options} {world : World}
    (named : options.output ≠ [0x2d]) (refused : ¬ Accepts options world)
    (image : Array UInt8) :
    ∃ fault, World.system.writeFile options.output image world =
      (.error fault, world) := by
  simp only [World.system, World.unlessRefused]
  cases allowed : world.refusals (.stored options.output) with
  | some reason => exact ⟨.refused reason, rfl⟩
  | none =>
      cases free : world.files.placeForWriting options.output with
      | ok place => exact absurd (.file place named allowed free) refused
      | error fault =>
          simp only [FileSystem.write, free]
          exact ⟨fault, rfl⟩

/-- Standard output refuses an image, or it breaks off. -/
theorem writeOutput_of_refused {world : World} {output : Text}
    (dash : output = [0x2d])
    (refused : ¬ (world.refusals .output = none ∧ world.WritesWhole))
    (image : Array UInt8) :
    ∃ reason after, World.system.writeOutput image world =
        (.error reason, after) ∧
      (after = world ∨ World.BreaksOff output image world after) ∧
      world.accesses <+: after.accesses := by
  simp only [World.system, World.writeOutput]
  cases allowed : world.refusals .output with
  | some reason => exact ⟨reason, world, rfl, .inl rfl, List.prefix_rfl⟩
  | none =>
      cases interrupted : world.interruption with
      | none => exact absurd ⟨allowed, interrupted⟩ refused
      | some interruption =>
          exact ⟨interruption.reason, _, rfl, .inr
            ⟨dash, ⟨interruption, interrupted, rfl⟩, rfl,
              List.filter_append _ _⟩, List.prefix_append _ _⟩

/-- Where an image cannot be written, nothing happens, or standard output
breaks off. -/
theorem perform_deliver_of_refused {options : Options} {world : World}
    (refused : ¬ Accepts options world) (image : Array UInt8) :
    ∃ failure after, world.perform (deliver World.system options image) =
        (.error failure, after) ∧
      (after = world ∨ World.BreaksOff options.output image world after) ∧
      world.accesses <+: after.accesses := by
  by_cases dash : options.output = [0x2d]
  · rw [deliver, if_pos dash,
      World.perform_lift_bind (isTerminal_apply world)]
    split
    · exact ⟨.terminal, world, rfl, .inl rfl, List.prefix_rfl⟩
    · next granted =>
      have unready :
          ¬ (world.refusals .output = none ∧ world.WritesWhole) := by
        rintro ⟨allowed, whole⟩
        exact refused (.output dash (by simpa using granted) allowed whole)
      obtain ⟨reason, after, failed, left⟩ :=
        writeOutput_of_refused dash unready image
      rw [World.perform_lift_bind failed]
      exact ⟨.output reason, after, rfl, left⟩
  · obtain ⟨fault, failed⟩ := write_of_refused dash refused image
    rw [deliver, if_neg dash, World.perform_lift_bind failed]
    exact ⟨.file options.output fault, world, rfl, .inl rfl,
      List.prefix_rfl⟩

/-! ## Whole runs -/

/-- How a source is accessed. -/
def accessTo (source : Text) : Access :=
  if source = [0x2d] then .input else .opened source

theorem perform_readSource (world : World) (source : Text) :
    world.perform (readSource World.system source) =
      (world.contents source, world.record (accessTo source)) := by
  unfold readSource World.contents accessTo
  split <;> rfl

/-- The program is what options make of a source. -/
def Makes (language : FormulaLanguage) (options : Options) (source : Text)
    (world : World) (program : Program) : Prop :=
  ∃ assembler text, Configures options assembler ∧
    world.Holds source text ∧
    assembler.assembleWith language (.ok text) = .ok program

/-- A source that cannot be read gives no program. -/
theorem assembleWith_unreadable (language : FormulaLanguage)
    (assembler : Assembler) (reason : Text) (program : Program) :
    assembler.assembleWith language (.error reason) ≠ .ok program := by
  unfold Assembler.assembleWith
  dsimp only
  split <;> nofun

/-- The world of a run that has read its source and shown a dump. -/
def prepared (options : Options) (source : Text) (world : World)
    (program : Program) : World :=
  if options.dump then
    (world.record (accessTo source)).display (dump program)
  else world.record (accessTo source)

theorem unwritten_record (world : World) (source : Text) :
    World.Unwritten world (world.record (accessTo source)) := by
  refine ⟨rfl, rfl, ?_⟩
  rw [World.writes, World.record, List.filter_append]
  unfold accessTo
  split <;> exact List.append_nil _

theorem accesses_prepared (options : Options) (source : Text)
    (world : World) (program : Program) :
    (prepared options source world program).accesses =
      world.accesses ++ [accessTo source] := by
  unfold prepared
  split <;> rfl

theorem interruption_prepared (options : Options) (source : Text)
    (world : World) (program : Program) :
    (prepared options source world program).interruption =
      world.interruption := by
  unfold prepared
  split <;> rfl

theorem unwritten_prepared (options : Options) (source : Text)
    (world : World) (program : Program) :
    World.Unwritten world (prepared options source world program) := by
  obtain ⟨output, files, writes⟩ := unwritten_record world source
  unfold prepared
  split <;> exact ⟨output, files, writes⟩

/-- What is read and shown has no influence on what can be written. -/
theorem accepts_prepared {options : Options} {world : World}
    (accepts : Accepts options world) (source : Text) (program : Program) :
    Accepts options (prepared options source world program) := by
  unfold prepared
  split <;>
    cases accepts with
    | output dash wanted allowed whole =>
        exact .output dash wanted allowed whole
    | file place named allowed free => exact .file place named allowed free

section

variable {language : FormulaLanguage} {options : Options} {source : Text}
  {world : World} {program other : Program}

/-- Options and a source that holds a text leave nothing open. -/
theorem makes_iff {assembler : Assembler} {found : Except Text Text}
    (configures : Configures options assembler)
    (read : world.contents source = .ok found) :
    Makes language options source world program ↔
      assembler.assembleWith language found = .ok program := by
  constructor
  · rintro ⟨other, text, configuresOther, holds, assembled⟩
    cases (configure_eq_ok_iff.2 configures).symm.trans
      (configure_eq_ok_iff.2 configuresOther)
    cases read.symm.trans (World.contents_eq_ok_iff.2 holds)
    exact assembled
  · intro assembled
    cases found with
    | error reason =>
        exact absurd assembled (assembleWith_unreadable _ _ _ _)
    | ok text =>
        exact ⟨assembler, text, configures,
          World.contents_eq_ok_iff.1 read, assembled⟩

theorem Makes.unique (makes : Makes language options source world program)
    (makesOther : Makes language options source world other) :
    other = program := by
  obtain ⟨assembler, text, configures, holds, assembled⟩ := makes
  have assembledOther := (makes_iff configures
    (World.contents_eq_ok_iff.2 holds)).1 makesOther
  exact Except.ok.inj (assembledOther.symm.trans assembled)

theorem Makes.usable (makes : Makes language options source world program) :
    ¬ Unusable options := by
  obtain ⟨_, _, configures, -, -⟩ := makes
  exact configures.usable

end

/-- The courses that a run can take. -/
inductive Course (language : FormulaLanguage) (options : Options)
    (source : Text) (before : World) : Except Failure Unit × World → Prop where
  /-- The options cannot be met. -/
  | rejected {failure : Failure} (unusable : Unusable options) :
      Course language options source before (.error failure, before)
  /-- There is no program. -/
  | failed {failure : Failure} (usable : ¬ Unusable options)
      (unmade : ∀ program, ¬ Makes language options source before program) :
      Course language options source before
        (.error failure, before.record (accessTo source))
  /-- There is a program, which is written if it can be. -/
  | made {program : Program}
      (makes : Makes language options source before program) :
      Course language options source before
        ((prepared options source before program).perform
          (deliver World.system options program.binary))

/-- What can come of a run. -/
theorem run_course (language : FormulaLanguage) (options : Options)
    (source : Text) (before : World) :
    Course language options source before
      (before.perform (run language World.system options source)) := by
  unfold run
  cases configured : configure options with
  | error failure =>
      rw [World.perform_except_bind_of_error rfl]
      refine .rejected (not_not.1 fun usable => ?_)
      obtain ⟨assembler, configures⟩ := exists_configures usable
      cases configured.symm.trans (configure_eq_ok_iff.2 configures)
  | ok assembler =>
      have configures := configure_eq_ok_iff.1 configured
      have sourceRead := perform_readSource before source
      rw [World.perform_except_bind rfl]
      cases read : before.contents source with
      | error failure =>
          rw [read] at sourceRead
          rw [World.perform_bind_of_error sourceRead]
          refine .failed configures.usable ?_
          rintro program ⟨_, text, -, holds, -⟩
          cases read.symm.trans (World.contents_eq_ok_iff.2 holds)
      | ok found =>
          rw [read] at sourceRead
          rw [World.perform_bind_of_ok sourceRead]
          cases assembled : assembler.assembleWith language found with
          | error fault =>
              refine .failed configures.usable fun program makes => ?_
              cases assembled.symm.trans ((makes_iff configures read).1 makes)
          | ok program =>
              have makes := (makes_iff configures read).2 assembled
              have made := Course.made makes
              unfold prepared at made
              dsimp only
              split
              · next dumps =>
                rw [if_pos dumps] at made
                rw [World.perform_lift_bind (notify_apply _ _)]
                exact made
              · next quiet =>
                rw [if_neg quiet] at made
                exact made

/--
What comes of a run with some options on a source: all or nothing.

The result and the world after the run are given.
-/
structure AllOrNothing (language : FormulaLanguage) (options : Options)
    (source : Text) (before : World) (result : Except Failure Unit)
    (after : World) : Prop where
  /-- Success means that the image of the program has been written. -/
  written : result = .ok () → ∃ program,
    (∀ other, Makes language options source before other ↔
      other = program) ∧
      World.Writes options.output program.binary before after
  /-- Failure means that nothing has been written, if standard output takes
  everything or nothing. -/
  nothing : before.WritesWhole → ∀ failure, result = .error failure →
    World.Unwritten before after
  /-- If it does not, failure may leave part of the image of the program
  there, and nothing anywhere else. -/
  remains : ∀ failure, result = .error failure →
    World.Unwritten before after ∨
      ∃ program, Makes language options source before program ∧
        World.BreaksOff options.output program.binary before after
  /-- Options that cannot be met fail before anything is accessed. -/
  early : Unusable options →
    (∃ failure, result = .error failure) ∧ after = before
  /-- Otherwise the source is read before anything else. -/
  read : ¬ Unusable options →
    before.accesses ++ [accessTo source] <+: after.accesses
  /-- There is success if there is a program and a place for it. -/
  complete : ∀ program, Makes language options source before program →
    Accepts options before → result = .ok ()

namespace AllOrNothing

variable {language : FormulaLanguage} {options : Options} {source : Text}
  {before after : World} {program : Program} {failure : Failure}

theorem of_unusable (unusable : Unusable options) :
    AllOrNothing language options source before (.error failure) before where
  written := nofun
  nothing _ _ _ := ⟨rfl, rfl, rfl⟩
  remains _ _ := .inl ⟨rfl, rfl, rfl⟩
  early _ := ⟨⟨failure, rfl⟩, rfl⟩
  read usable := absurd unusable usable
  complete _ makes := absurd unusable makes.usable

/-- A failure after reading, for want of a program or of a place for it. -/
theorem of_unwritten (usable : ¬ Unusable options)
    (unwritten : World.Unwritten before after)
    (read : after.accesses = before.accesses ++ [accessTo source])
    (hopeless : ∀ program, Makes language options source before program →
      ¬ Accepts options before) :
    AllOrNothing language options source before (.error failure) after where
  written := nofun
  nothing _ _ _ := unwritten
  remains _ _ := .inl unwritten
  early unusable := absurd unusable usable
  read _ := read ▸ List.prefix_rfl
  complete program makes accepts :=
    absurd accepts (hopeless program makes)

/-- A failure with part of the image written. -/
theorem of_breaksOff (makes : Makes language options source before program)
    (breaks : World.BreaksOff options.output program.binary before after)
    (read : before.accesses ++ [accessTo source] <+: after.accesses)
    (refused : ¬ Accepts options before) :
    AllOrNothing language options source before (.error failure) after where
  written := nofun
  nothing whole := by
    obtain ⟨interruption, interrupted, -⟩ := breaks.part
    cases whole.symm.trans interrupted
  remains _ _ := .inr ⟨program, makes, breaks⟩
  early unusable := absurd unusable makes.usable
  read _ := read
  complete _ _ accepts := absurd accepts refused

theorem of_writes (makes : Makes language options source before program)
    (writes : World.Writes options.output program.binary before after)
    (read : before.accesses ++ [accessTo source] <+: after.accesses) :
    AllOrNothing language options source before (.ok ()) after where
  written _ := by
    refine ⟨program, fun other => ⟨makes.unique, ?_⟩, writes⟩
    rintro rfl
    exact makes
  nothing _ := nofun
  remains := nofun
  early unusable := absurd unusable makes.usable
  read _ := read
  complete _ _ _ := rfl

end AllOrNothing

theorem Course.allOrNothing {language : FormulaLanguage} {options : Options}
    {source : Text} {before : World} {outcome : Except Failure Unit × World}
    (course : Course language options source before outcome) :
    AllOrNothing language options source before outcome.1 outcome.2 := by
  cases course with
  | rejected unusable => exact .of_unusable unusable
  | failed usable unmade =>
      refine .of_unwritten usable (unwritten_record before source) rfl ?_
      exact fun program makes => absurd makes (unmade program)
  | @made program makes =>
      have unwritten := unwritten_prepared options source before program
      have read := accesses_prepared options source before program
      by_cases accepts :
        Accepts options (prepared options source before program)
      · obtain ⟨after, delivered, writes, later⟩ :=
          perform_deliver_of_accepts accepts program.binary
        rw [delivered]
        rw [read] at later
        exact .of_writes makes (writes.of_unwritten unwritten) later
      · have refused : ¬ Accepts options before := fun acceptsBefore =>
          accepts (accepts_prepared acceptsBefore source program)
        obtain ⟨failure, after, failed, left, later⟩ :=
          perform_deliver_of_refused accepts program.binary
        rw [failed]
        rw [read] at later
        rcases left with rfl | breaks
        · exact .of_unwritten makes.usable unwritten read fun _ _ => refused
        · refine .of_breaksOff makes (breaks.of_unwritten unwritten ?_)
            ?_ refused
          · exact interruption_prepared options source before program
          · exact later

-- what standard output has taken before it broke off stays there
example :
    let before : World :=
      { input := Text.ascii "data 1, 2", files := .ofFiles [],
        isTerminal := false, interruption := some ⟨1, Text.ascii "full"⟩ }
    (before.perform
      (run Formula.evaluate World.system Options.initial [0x2d])).2.output =
      [1] := by
  decide +kernel

/-- Definitions for a run that writes to a file. -/
def defining (definitions : List Text) : Options :=
  { Options.initial with output := Text.ascii "t", defines := definitions }

/-- One line of standard input, no files, and a terminal. -/
def oneLine : World :=
  { input := Text.ascii "data x", files := .ofFiles [], isTerminal := true }

end FlatAsm.CommandLine
