import ThemeSheet.Proofs.CyclePipeline
import ThemeSheet.Proofs.CycleProtocol

/-! When a formatter is made, and what becomes of it: none is made before the first cycle that has
written its output, and the first that can be made formats the output of every later cycle. -/

namespace ThemeSheet

open Literal (Mapping)

/-- Whether a formatter is asked for, or formats. -/
def Occurrence.isFormatting : Occurrence → Bool
  | formatterAsked => true
  | formatting .. => true
  | log _ => false
  | event _ => false

namespace Engine

/-- What was asked of the factory and of formatters, in order. -/
def calls (e : Engine) : List Occurrence :=
  e.trace.filter Occurrence.isFormatting

variable {e e' e'' : Engine} {cwd : List String}

/-! Most of a cycle has nothing to do with formatters. -/

/-- A part of a cycle that asks nothing of the factory or a formatter. -/
structure Aloof (e e' : Engine) : Prop where
  calls : e'.calls = e.calls
  formatter : e'.controller.formatter = e.controller.formatter
  formatters : e'.controller.formatters = e.controller.formatters
  asked : e'.controller.asked = e.controller.asked

theorem Aloof.trans (h : Aloof e e') (h' : Aloof e' e'') : Aloof e e'' where
  calls := h'.calls.trans h.calls
  formatter := h'.formatter.trans h.formatter
  formatters := h'.formatters.trans h.formatters
  asked := h'.asked.trans h.asked

theorem aloof_of_trace {more : List Occurrence} (controller : e'.controller = e.controller)
    (trace : e'.trace = e.trace ++ more) (other : more.filter Occurrence.isFormatting = []) :
    Aloof e e' where
  calls := by rw [calls, trace, List.filter_append, other, List.append_nil, calls]
  formatter := by rw [controller]
  formatters := by rw [controller]
  asked := by rw [controller]

theorem aloof_log (e : Engine) (level : Level) (message : String) : Aloof e (e.log level message) :=
  aloof_of_trace rfl rfl rfl

theorem aloof_logAll (e : Engine) (records : List LogRecord) : Aloof e (e.logAll records) := by
  refine aloof_of_trace rfl rfl (List.filter_eq_nil_iff.mpr fun occurrence mem => ?_)
  obtain ⟨record, -, rfl⟩ := List.mem_map.mp mem
  exact Bool.false_ne_true

theorem aloof_emit (e : Engine) (event : CycleEvent) : Aloof e (e.emit event) := by
  let heard := ({ e with controller := { e.controller with
    bus := (e.controller.bus.emit event).bus
    commands := e.controller.commands ++ (e.controller.bus.emit event).commands } }).note
      (.event event)
  have told : Aloof e heard := by
    refine ⟨?_, rfl, rfl, rfl⟩
    exact (List.filter_append ..).trans (List.append_nil _)
  exact told.trans (aloof_logAll heard (e.controller.bus.emit event).logs)

theorem aloof_enter (e : Engine) (state : CycleState) : Aloof e (e.enter state) :=
  ⟨rfl, rfl, rfl, rfl⟩

theorem extract_aloof {result : Except CycleFault Mapping} (h : e.extract cwd = (e', result)) :
    Aloof e e' := by
  cases h
  exact (aloof_enter e .extracting).trans (aloof_logAll _ _)

theorem generate_aloof {mapping : Mapping} {result : Except CycleFault String}
    (h : e.generate mapping = (e', result)) : Aloof e e' := by
  cases h
  exact aloof_enter e .generating

theorem succeed_aloof (e : Engine) (count : Nat) : Aloof e (e.succeed count).1 :=
  (aloof_log e _ _).trans (aloof_emit _ _)

theorem fail_aloof (e : Engine) (fault : CycleFault) : Aloof e (e.fail fault).1 := by
  rw [fail]
  split
  · exact ((aloof_log e _ _).trans (aloof_log _ _ _)).trans (aloof_emit _ _)
  · exact (aloof_log e _ _).trans (aloof_emit _ _)

/-! The formatting stage. -/

/-- What a formatting stage asks for, and what it leaves: of the files, the output among them, and of
the formatter. -/
inductive Formats (e e' : Engine) : List Occurrence → Prop
  | kept {formatter : Formatter} (had : e.controller.formatter = some formatter)
      (keeps : e'.controller.formatter = some formatter)
      (asked : e'.controller.asked = e.controller.asked)
      (files : e'.files = (formatter.format e.config.output e.files).1) :
      Formats e e' [.formatting formatter.kind e.config.output .formatting]
  | made {formatter : Formatter} (lacks : e.controller.formatter = none)
      (made : (e.controller.formatters e.controller.asked e.files).2 = .ok formatter)
      (keeps : e'.controller.formatter = some formatter)
      (asked : e'.controller.asked = e.controller.asked + 1)
      (files : e'.files = (formatter.format e.config.output e.files).1) :
      Formats e e' [.formatterAsked, .formatting formatter.kind e.config.output .formatting]
  | refused {fault : Format.Fault} (lacks : e.controller.formatter = none)
      (refused : (e.controller.formatters e.controller.asked e.files).2 = .error fault)
      (keeps : e'.controller.formatter = none)
      (asked : e'.controller.asked = e.controller.asked + 1) (files : e'.files = e.files) :
      Formats e e' [.formatterAsked]

/-- What is done around the formatting stage makes no difference. -/
theorem Formats.around {before after : Engine} {asked : List Occurrence} (h : Formats e e' asked)
    (first : Aloof before e) (config : e.config = before.config) (files : e.files = before.files)
    (last : Aloof e' after) (files' : after.files = e'.files) : Formats before after asked := by
  cases h with
  | kept had keeps asked left =>
    rw [config, files] at left
    rw [config]
    exact .kept (first.formatter ▸ had) (last.formatter.trans keeps)
      (last.asked.trans (asked.trans first.asked)) (files'.trans left)
  | made lacks made keeps asked left =>
    rw [config, files] at left
    rw [first.formatters, first.asked, files] at made
    rw [config]
    exact .made (first.formatter ▸ lacks) made (last.formatter.trans keeps)
      (last.asked.trans (asked.trans (congrArg (· + 1) first.asked))) (files'.trans left)
  | refused lacks refused keeps asked left =>
    rw [first.formatters, first.asked, files] at refused
    exact .refused (first.formatter ▸ lacks) refused (last.formatter.trans keeps)
      (last.asked.trans (asked.trans (congrArg (· + 1) first.asked)))
      (files'.trans (left.trans files))

/-- A formatter that is not kept is asked for, and kept if it is had. -/
theorem formatter_asked (none : e.controller.formatter = none) :
    ∃ asked, e.formatter = (asked, (e.controller.formatters e.controller.asked e.files).2) ∧
      asked.calls = e.calls ++ [.formatterAsked] ∧
      asked.controller.formatter =
        (e.controller.formatters e.controller.asked e.files).2.toOption ∧
      asked.controller.formatters = e.controller.formatters ∧
      asked.controller.asked = e.controller.asked + 1 ∧
      asked.controller.state = e.controller.state ∧ asked.files = e.files := by
  rw [formatter, none]
  refine ⟨_, rfl, ?_, rfl, rfl, rfl, rfl, rfl⟩
  rw [(aloof_logAll _ _).calls]
  exact List.filter_append ..

theorem runFormatter_formats (entered : e.controller.state = .formatting) :
    ∃ asked, (e.runFormatter e.config.output).1.calls = e.calls ++ asked ∧
      (e.runFormatter e.config.output).1.controller.formatters = e.controller.formatters ∧
      Formats e (e.runFormatter e.config.output).1 asked := by
  cases had : e.controller.formatter with
  | some formatter =>
    have found : e.formatter = (e, .ok formatter) := by rw [Engine.formatter, had]
    rw [runFormatter, found]
    refine ⟨_, ?_, rfl, .kept had had rfl rfl⟩
    rw [← entered]
    exact List.filter_append ..
  | none =>
    obtain ⟨asked, found, calls, keeps, formatters, count, state, files⟩ := formatter_asked had
    cases made : (e.controller.formatters e.controller.asked e.files).2 with
    | ok formatter =>
      rw [made] at found keeps
      rw [runFormatter, found]
      refine ⟨[.formatterAsked, .formatting formatter.kind e.config.output .formatting], ?_,
        formatters, .made had made keeps count ?_⟩
      · refine (List.filter_append ..).trans ?_
        change asked.calls ++ [.formatting formatter.kind e.config.output asked.controller.state] = _
        rw [calls, state, entered, List.append_assoc]
        rfl
      · exact congrArg (fun fs => (formatter.format e.config.output fs).1) files
    | error fault =>
      rw [made] at found keeps
      rw [runFormatter, found]
      exact ⟨_, calls, formatters, .refused had made keeps count files⟩

/-- Whether it fails or not, a formatting stage asks for a formatter unless there is one, and has the
output formatted once if it is had. -/
theorem format_formats (e : Engine) :
    ∃ asked, e.format.1.calls = e.calls ++ asked ∧
      e.format.1.controller.formatters = e.controller.formatters ∧ Formats e e.format.1 asked := by
  obtain ⟨asked, calls, formatters, formats⟩ :=
    runFormatter_formats (e := e.enter .formatting) rfl
  have finish {after : Engine}
      (rest : Aloof ((e.enter .formatting).runFormatter e.config.output).1 after)
      (files : after.files = ((e.enter .formatting).runFormatter e.config.output).1.files) :
      ∃ asked, after.calls = e.calls ++ asked ∧
        after.controller.formatters = e.controller.formatters ∧ Formats e after asked :=
    ⟨asked, rest.calls.trans calls, rest.formatters.trans formatters,
      formats.around (aloof_enter e .formatting) rfl rfl rest files⟩
  rw [format]
  have same : (e.enter .formatting).config = e.config := rfl
  rw [same]
  split
  · rename_i ran
    rw [ran] at finish
    exact finish ⟨rfl, rfl, rfl, rfl⟩ rfl
  · rename_i ran
    rw [ran] at finish
    split
    · exact finish ((aloof_log _ _ _).trans (aloof_emit _ _)) rfl
    · exact finish ⟨rfl, rfl, rfl, rfl⟩ rfl

/-! Cycles. -/

/-- The files once a cycle has written its output, if it comes to that. -/
def written? (cwd : List String) (e : Engine) : Option Files :=
  match pipeline cwd e.files e.config with
  | .ok (_, sheet) => some ((e.files.writeAtomic cwd e.config.output sheet).files e.files)
  | .error _ => none

/-- Formatting is the last of the stages, and comes after the write alone. -/
theorem stages_written (cwd : List String) (e : Engine) :
    e.written? cwd = none ∧ Aloof e (e.stages cwd).1 ∨
      ∃ written : Engine, Aloof e written ∧ written.config = e.config ∧
        e.written? cwd = some written.files ∧ (e.stages cwd).1 = written.format.1 := by
  rw [stages, written?]
  rcases hx : e.extract cwd with ⟨read, result⟩
  obtain ⟨⟨config, -⟩, files, source⟩ := extract_frame hx
  have computed := pipeline_eq cwd e.files e.config
  rw [← source] at computed
  cases result with
  | error fault =>
    left
    rw [computed]
    exact ⟨rfl, extract_aloof hx⟩
  | ok mapping =>
    dsimp only
    rcases hg : read.generate mapping with ⟨generated, result⟩
    obtain ⟨⟨config', -⟩, files', generation⟩ := generate_frame hg
    have aloof := (extract_aloof hx).trans (generate_aloof hg)
    rw [config] at generation
    change _ = ((Stylesheet.render mapping e.config.space e.config.classifier).mapError
      CycleFault.generation).bind _ at computed
    rw [← generation] at computed
    cases result with
    | error fault =>
      left
      rw [computed]
      exact ⟨rfl, aloof⟩
    | ok text =>
      have config₂ : generated.config = e.config := config'.trans config
      let after := { generated.enter .writing with
        files := (e.files.writeAtomic cwd e.config.output text).files e.files }
      have written : Aloof e after := aloof.trans ⟨rfl, rfl, rfl, rfl⟩
      dsimp only
      rw [write_eq, config₂, files', files]
      cases failed : (e.files.writeAtomic cwd e.config.output text).error with
      | some error =>
        left
        simp only [Except.bind, failed] at computed
        rw [computed]
        exact ⟨rfl, written⟩
      | none =>
        right
        simp only [Except.bind, failed] at computed
        rw [computed]
        refine ⟨after, written, config₂, rfl, ?_⟩
        dsimp only
        split <;> rename_i same <;> exact congrArg Prod.fst same.symm

/-- What a cycle asks for: nothing unless it writes its output, and then what the formatting stage
asks for with the output written. -/
inductive Served (cwd : List String) (run : CycleRun) : List Occurrence → Prop
  | unwritten (none : run.before.written? cwd = none)
      (keeps : (run.after cwd).controller.formatter = run.before.controller.formatter)
      (asked : (run.after cwd).controller.asked = run.before.controller.asked) : Served cwd run []
  | written {files : Files} {asked : List Occurrence} (wrote : run.before.written? cwd = some files)
      (formats : Formats { run.before with files } (run.after cwd) asked) : Served cwd run asked

theorem regenerate_served (cwd : List String) (run : CycleRun) :
    ∃ asked, (run.after cwd).calls = run.before.calls ++ asked ∧
      (run.after cwd).controller.formatters = run.before.controller.formatters ∧
      Served cwd run asked := by
  obtain ⟨e, trigger⟩ := run
  have begun : Aloof e (e.begun trigger) := by
    let counted : Engine :=
      { e with controller := { e.controller with cycles := e.controller.cycles + 1 } }
    have aloof : Aloof e counted := ⟨rfl, rfl, rfl, rfl⟩
    exact aloof.trans (aloof_emit _ _)
  have ended : Aloof ((e.begun trigger).stages cwd).1 (e.regenerate cwd trigger).1 ∧
      (e.regenerate cwd trigger).1.files = ((e.begun trigger).stages cwd).1.files := by
    cases ran : (e.begun trigger).stages cwd with
    | mk staged result =>
      cases result with
      | ok count =>
        rw [regenerate_ok ran]
        exact ⟨(succeed_aloof staged count).trans (aloof_enter _ _), rfl⟩
      | error fault =>
        rw [regenerate_error ran]
        refine ⟨(fail_aloof staged fault).trans (aloof_enter _ _), ?_⟩
        rw [fail]
        split <;> rfl
  have same : (e.begun trigger).written? cwd = e.written? cwd := rfl
  rcases stages_written cwd (e.begun trigger) with
    ⟨none, stages⟩ | ⟨written, aloof, config, wrote, formatted⟩
  · rw [same] at none
    have whole := (begun.trans stages).trans ended.1
    exact ⟨[], by rw [List.append_nil]; exact whole.calls, whole.formatters,
      .unwritten none whole.formatter whole.asked⟩
  · rw [same] at wrote
    obtain ⟨asked, calls, formatters, formats⟩ := format_formats written
    rw [formatted] at ended
    have first := begun.trans aloof
    refine ⟨asked, ?_, ?_, .written wrote ?_⟩
    · exact ended.1.calls.trans (calls.trans (congrArg (· ++ asked) first.calls))
    · exact ended.1.formatters.trans (formatters.trans first.formatters)
    · exact formats.around ⟨first.calls, first.formatter, first.formatters, first.asked⟩ config rfl
        ended.1 ended.2

/-! Over any run. -/

/-- The formatter that is kept, and how often the factory was asked for one. -/
def supply (e : Engine) : Option Formatter × Nat :=
  (e.controller.formatter, e.controller.asked)

theorem Aloof.supply (h : Aloof e e') : e'.supply = e.supply :=
  Prod.ext h.formatter h.asked

/-- Each cycle finds what the one before it has left. -/
def Handed (cwd : List String) :
    Option Formatter × Nat → List CycleRun → Option Formatter × Nat → Prop
  | found, [], left => found = left
  | found, run :: rest, left => run.before.supply = found ∧ Handed cwd (run.after cwd).supply rest left

theorem Handed.concat {found : Option Formatter × Nat} {runs : List CycleRun} {run : CycleRun}
    (h : Handed cwd found runs run.before.supply) :
    Handed cwd found (runs ++ [run]) (run.after cwd).supply := by
  induction runs generalizing found with
  | nil => exact ⟨h.symm, rfl⟩
  | cons first rest ih => exact ⟨h.1, ih h.2⟩

theorem Handed.behind {found left : Option Formatter × Nat} {earlier later : List CycleRun}
    {run : CycleRun} (h : Handed cwd found (earlier ++ run :: later) left) :
    Handed cwd (run.after cwd).supply later left := by
  induction earlier generalizing found with
  | nil => exact h.2
  | cons first rest ih => exact ih h.2

/-- A cycle that finds a formatter keeps it, asks for no other, and has it format the output once if
it writes one. -/
structure Reuses (cwd : List String) (formatter : Formatter) (run : CycleRun) : Prop where
  keeps : (run.after cwd).controller.formatter = some formatter
  idle : run.before.written? cwd = none → (run.after cwd).calls = run.before.calls
  formats : ∀ files, run.before.written? cwd = some files →
    (run.after cwd).calls = run.before.calls ++
        [.formatting formatter.kind run.before.config.output .formatting] ∧
      (run.after cwd).files = (formatter.format run.before.config.output files).1

theorem reuses_of_found {run : CycleRun} {formatter : Formatter}
    (found : run.before.controller.formatter = some formatter) : Reuses cwd formatter run := by
  obtain ⟨asked, calls, -, served⟩ := regenerate_served cwd run
  cases served with
  | unwritten none keeps =>
    refine ⟨keeps.trans found, fun _ => calls.trans (List.append_nil _), fun files wrote => ?_⟩
    rw [none] at wrote
    cases wrote
  | written wrote formats =>
    cases formats with
    | kept had keeps _ files =>
      obtain rfl := Option.some.inj (had.symm.trans found)
      refine ⟨keeps, fun none => ?_, fun files' wrote' => ?_⟩
      · rw [wrote] at none
        cases none
      · obtain rfl := Option.some.inj (wrote.symm.trans wrote')
        exact ⟨calls, files⟩
    | made lacks =>
      cases found.symm.trans lacks
    | refused lacks =>
      cases found.symm.trans lacks

/-- Once there is a formatter, every later cycle uses it. -/
theorem Handed.reuses {found left : Option Formatter × Nat} {runs : List CycleRun}
    (h : Handed cwd found runs left) {formatter : Formatter} (had : found.1 = some formatter) :
    left.1 = some formatter ∧ ∀ run ∈ runs, Reuses cwd formatter run := by
  induction runs generalizing found with
  | nil => exact ⟨h ▸ had, fun _ none => by cases none⟩
  | cons run rest ih =>
    have reuses : Reuses cwd formatter run :=
      reuses_of_found ((congrArg Prod.fst h.1).trans had)
    obtain ⟨last, later⟩ := ih h.2 reuses.keeps
    exact ⟨last, List.forall_mem_cons.mpr ⟨reuses, later⟩⟩

/-- Where a controller's formatter comes from: its factory is asked by cycles alone, from the first
of them on, and each cycle finds what the one before it has left. -/
structure Supplied (formatters : FormatterSource) (cwd : List String) (r : Recorded) : Prop where
  factory : r.engine.controller.formatters = formatters
  same : ∀ run ∈ r.runs, run.before.controller.formatters = formatters
  handed : Handed cwd (none, 0) r.runs r.engine.supply
  served : ∃ parts, r.engine.calls = parts.flatten ∧
    List.Forall₂ (fun asked run => Served cwd run asked) parts r.runs

variable {formatters : FormatterSource}

theorem Supplied.aloof {r r' : Recorded} (h : Supplied formatters cwd r) (runs : r'.runs = r.runs)
    (aloof : Aloof r.engine r'.engine) : Supplied formatters cwd r' where
  factory := aloof.formatters.trans h.factory
  same := by rw [runs]; exact h.same
  handed := by rw [runs, aloof.supply]; exact h.handed
  served := by rw [runs, aloof.calls]; exact h.served

theorem Supplied.ran {r : Recorded} (h : Supplied formatters cwd r) (trigger : String) :
    let run : CycleRun := ⟨r.engine, trigger⟩
    Supplied formatters cwd ⟨run.after cwd, r.incidents ++ [.ran run]⟩ := by
  intro run
  obtain ⟨asked, calls, kept, served⟩ := regenerate_served cwd run
  constructor
  · exact kept.trans h.factory
  · rw [Recorded.runs_ran]
    intro run' there
    rcases List.mem_append.mp there with before | last
    · exact h.same run' before
    · cases List.mem_singleton.mp last
      exact h.factory
  · rw [Recorded.runs_ran]
    have before : Handed cwd (none, 0) r.runs run.before.supply := h.handed
    exact before.concat
  · obtain ⟨parts, past, each⟩ := h.served
    refine ⟨parts ++ [asked], ?_, ?_⟩
    · rw [List.flatten_append, List.flatten_singleton, ← past]
      exact calls
    · rw [Recorded.runs_ran]
      exact List.rel_append each (.cons served .nil)

theorem lasting_supplied (formatters : FormatterSource) (cwd : List String) :
    Recorded.Lasting cwd (Supplied formatters cwd) where
  ran := fun _ trigger h => h.ran trigger
  edited := fun r files h => h.aloof (r.runs_edited _ files) ⟨rfl, rfl, rfl, rfl⟩
  logged := fun r message h => h.aloof rfl (aloof_log r.engine .debug message)
  debounced := fun _ _ _ h => h.aloof rfl ⟨rfl, rfl, rfl, rfl⟩

/-- Whatever is asked of a controller, whatever happens to its files, and whatever its factory, its
formatters and its listeners do: the factory is asked for a formatter only by a cycle that finds
none, once its output is written; where it has none to give, none is kept; and the first that it
gives is kept, and formats the output of every cycle that writes one from then on, once. -/
theorem formatter_kept (config : Config) (formatters : FormatterSource) (bus : Bus CycleEvent)
    (files : Files) (clock : Clock) (cwd : List String) (deeds : List Deed) :
    let start : Clock × Recorded := (clock, ⟨fresh config formatters bus files, []⟩)
    let world := deeds.foldl (Recorded.perform cwd) start
    Recorded.plain world =
        deeds.foldl (perform cwd) (clock, fresh config formatters bus files) ∧
      Supplied formatters cwd world.2 ∧
      ∀ earlier run later formatter, world.2.runs = earlier ++ run :: later →
        (run.after cwd).controller.formatter = some formatter →
        world.2.engine.controller.formatter = some formatter ∧
          ∀ next ∈ later, Reuses cwd formatter next := by
  intro start world
  have begins : Supplied formatters cwd start.2 :=
    ⟨rfl, by simp [start, Recorded.runs], rfl, [], rfl, .nil⟩
  have supplied := (lasting_supplied formatters cwd).foldl_perform begins deeds
  refine ⟨Recorded.plain_foldl_perform cwd start deeds, supplied, ?_⟩
  intro earlier run later formatter split had
  have handed := supplied.handed
  change Handed cwd _ world.2.runs _ at handed
  rw [split] at handed
  exact handed.behind.reuses had

/-! Three cycles over the theme's files. -/

/-- Gives no formatter the first time it is asked, and then one that fails. -/
def lateFormatters : FormatterSource := fun asked _ =>
  ([], if asked = 0 then .error (.other "no formatter yet") else .ok explodingFormatter)

def threeCycles : List Deed :=
  [.regenerate "start", .edit fun _ => themeFiles, .regenerate "manual", .edit fun _ => themeFiles,
    .regenerate "manual"]

theorem written?_theme (files : e.files = themeFiles) (config : e.config = themeConfig) :
    ∃ written, e.written? [] = some written := by
  have computed : pipeline [] themeFiles themeConfig = .ok ([], emptySheet) :=
    pipeline_theme rfl writeAtomic_themeFiles
  rw [written?, files, config, computed]
  exact ⟨_, rfl⟩

/-- The cycles all begin with the theme's files, if the first does. -/
theorem runs_threeCycles (cwd : List String) (world : Clock × Recorded) :
    ∃ second third : CycleRun, (threeCycles.foldl (Recorded.perform cwd) world).2.runs =
        world.2.runs ++ [⟨world.2.engine, "start"⟩, second, third] ∧
      (second.before.files = themeFiles ∧ second.before.config = world.2.engine.config) ∧
      third.before.files = themeFiles ∧ third.before.config = world.2.engine.config := by
  let again (trigger : String) (world : Clock × Recorded) : Clock × Recorded :=
    Recorded.edit (fun _ => themeFiles) (Recorded.cycle cwd trigger world)
  have last (trigger : String) (world : Clock × Recorded) :
      (Recorded.cycle cwd trigger world).2.runs = world.2.runs ++ [⟨world.2.engine, trigger⟩] :=
    Recorded.runs_ran ..
  have next (trigger : String) (world : Clock × Recorded) :
      (again trigger world).2.runs = world.2.runs ++ [⟨world.2.engine, trigger⟩] ∧
        (again trigger world).2.engine.files = themeFiles ∧
        (again trigger world).2.engine.config = world.2.engine.config := by
    refine ⟨?_, rfl, ?_⟩
    · exact (Recorded.runs_edited ..).trans (last trigger world)
    · obtain ⟨debouncer, settled⟩ :=
        settle_eq (world.1, (world.2.engine.regenerate cwd trigger).1)
      obtain ⟨-, config, -⟩ := regenerate_follows cwd trigger world.2.engine
      exact (congrArg Engine.config settled).trans config
  obtain ⟨runs, files, config⟩ := next "start" world
  obtain ⟨runs', files', config'⟩ := next "manual" (again "start" world)
  refine ⟨⟨(again "start" world).2.engine, "manual"⟩,
    ⟨(again "manual" (again "start" world)).2.engine, "manual"⟩, ?_, ⟨files, config⟩, files',
    config'.trans config⟩
  simp only [threeCycles, List.foldl_cons, List.foldl_nil, Recorded.perform]
  rw [last, runs', runs, List.append_assoc, List.append_assoc, List.singleton_append,
    List.singleton_append]

/-- What a cycle over the theme's files gets from this factory. -/
theorem Served.late {run : CycleRun} {asked : List Occurrence} (h : Served [] run asked)
    (formatters : run.before.controller.formatters = lateFormatters)
    (files : run.before.files = themeFiles) (config : run.before.config = themeConfig) :
    let formats : Occurrence := .formatting .custom (.absolute ["vars.css"]) .formatting
    (run.before.supply = (none, 0) → asked = [.formatterAsked] ∧ (run.after []).supply = (none, 1)) ∧
    (run.before.supply = (none, 1) → asked = [.formatterAsked, formats] ∧
      (run.after []).controller.formatter = some explodingFormatter) ∧
    (run.before.controller.formatter = some explodingFormatter → asked = [formats]) := by
  intro formats
  obtain ⟨written, wrote⟩ := written?_theme files config
  cases h with
  | unwritten none =>
    rw [wrote] at none
    cases none
  | @written files _ _ formats' =>
    have output : run.before.config.output = .absolute ["vars.css"] := congrArg Config.output config
    simp only [supply, Prod.mk.injEq]
    cases formats' with
    | @kept formatter had keeps =>
      refine ⟨fun found => ?_, fun found => ?_, fun found => ?_⟩
      · cases found.1.symm.trans had
      · cases found.1.symm.trans had
      · cases found.symm.trans had
        change [Occurrence.formatting _ run.before.config.output _] = _
        rw [output]
        rfl
    | made lacks made keeps count =>
      change (run.before.controller.formatters run.before.controller.asked _).2 = _ at made
      rw [formatters] at made
      refine ⟨fun found => ?_, fun found => ?_, fun found => ?_⟩
      · rw [found.2] at made
        cases made
      · rw [found.2] at made
        cases made
        change [_, Occurrence.formatting _ run.before.config.output _] = _ ∧ _
        rw [output]
        exact ⟨rfl, keeps⟩
      · cases found.symm.trans lacks
    | refused lacks refused keeps count =>
      change (run.before.controller.formatters run.before.controller.asked _).2 = _ at refused
      rw [formatters] at refused
      refine ⟨fun found => ⟨rfl, keeps, count.trans (congrArg (· + 1) found.2)⟩,
        fun found => ?_, fun found => ?_⟩
      · rw [found.2] at refused
        cases refused
      · cases found.symm.trans lacks

/-- All three cycles fail in their formatting stage: the first for want of a formatter, the others by
the formatter that the second was given. -/
theorem formatter_kept_threeCycles :
    let world := threeCycles.foldl (perform [])
      (.initial, fresh themeConfig lateFormatters .empty themeFiles)
    let formats : Occurrence := .formatting .custom (.absolute ["vars.css"]) .formatting
    world.2.calls = [.formatterAsked, .formatterAsked, formats, formats] ∧
      world.2.controller.formatter = some explodingFormatter := by
  intro world formats
  obtain ⟨plain, supplied, kept⟩ :=
    formatter_kept themeConfig lateFormatters .empty themeFiles .initial [] threeCycles
  obtain ⟨second, third, runs, theme⟩ := runs_threeCycles []
    (.initial, ⟨fresh themeConfig lateFormatters .empty themeFiles, []⟩)
  generalize threeCycles.foldl (Recorded.perform []) _ = recorded at plain supplied kept runs
  have engine : recorded.2.engine = world.2 := congrArg Prod.snd plain
  change recorded.2.runs = [⟨fresh themeConfig lateFormatters .empty themeFiles, "start"⟩, second,
    third] at runs
  obtain ⟨parts, calls, each⟩ := supplied.served
  have handed := supplied.handed
  have factory := supplied.same
  rw [runs] at each handed factory
  obtain _ | ⟨one, _ | ⟨two, _ | ⟨three, ⟨⟩⟩⟩⟩ := each
  obtain ⟨-, link, link', -⟩ := handed
  obtain ⟨rfl, left⟩ := (one.late rfl rfl rfl).1 rfl
  obtain ⟨rfl, had⟩ := (two.late (factory second (by simp)) theme.1.1 theme.1.2).2.1
    (link.trans left)
  obtain rfl := (three.late (factory third (by simp)) theme.2.1 theme.2.2).2.2
    ((congrArg Prod.fst link').trans had)
  rw [← engine]
  exact ⟨calls, (kept [_] second [third] explodingFormatter runs had).1⟩

end Engine
end ThemeSheet
