import Mathlib.Data.NNRat.Defs
import ThemeSheet.Cycle.Engine
import ThemeSheet.Proofs.Timers

/-! What becomes of a controller, whatever is asked of it and whatever happens to its files, and each
cycle on the way. -/

namespace ThemeSheet.Engine

/-- What can be asked of a controller, and what can happen around it. -/
inductive Deed
  | regenerate (trigger : String)
  | notify (event path : String)
  | schedule
  | close
  /-- Time passes, and on the way listeners may start so many timers. -/
  | advance (seconds : NNRat) (more : Nat)
  | edit (change : Files → Files)

/-- Tells of something that happened to a path. One that cannot be resolved is the fault of who tells
of it, and nothing is done. -/
def notify (cwd : List String) (event path : String) (world : Clock × Engine) : Clock × Engine :=
  match handleEvent cwd event path world with
  | .error _ => world
  | .ok (world, _) => world

def perform (cwd : List String) (world : Clock × Engine) : Deed → Clock × Engine
  | .regenerate trigger => (cycle cwd trigger world).1
  | .notify event path => notify cwd event path world
  | .schedule => schedule world
  | .close => close world
  | .advance seconds more => advance cwd seconds more world
  | .edit change => (world.1, { world.2 with files := change world.2.files })

/-- A cycle that ran, with the engine that it found. -/
structure CycleRun where
  before : Engine
  trigger : String

namespace CycleRun

def after (cwd : List String) (run : CycleRun) : Engine :=
  (run.before.regenerate cwd run.trigger).1

def outcome (cwd : List String) (run : CycleRun) : Outcome :=
  (run.before.regenerate cwd run.trigger).2

end CycleRun

/-- What may change the files of an engine. -/
inductive Incident
  | edited (files : Files)
  | ran (run : CycleRun)

def Incident.run? : Incident → Option CycleRun
  | edited _ => none
  | ran run => some run

/-- An engine with all that has happened to its files. -/
structure Recorded where
  engine : Engine
  incidents : List Incident

namespace Recorded

/-- The engine without its history. -/
def plain (world : Clock × Recorded) : Clock × Engine :=
  Prod.map id engine world

/-- The cycles that ran, in order. -/
def runs (r : Recorded) : List CycleRun :=
  r.incidents.filterMap Incident.run?

def cycle (cwd : List String) (trigger : String) (world : Clock × Recorded) : Clock × Recorded :=
  let (clock, engine) := (Engine.cycle cwd trigger (plain world)).1
  (clock, ⟨engine, world.2.incidents ++ [.ran ⟨world.2.engine, trigger⟩]⟩)

def wake (cwd : List String) (number : Nat) (world : Clock × Recorded) : Clock × Recorded :=
  let e := world.2.engine
  match e.controller.debouncer.wake? number with
  | none => world
  | some debouncer =>
    let engine := { e with controller := { e.controller with debouncer } }
    cycle cwd "change" (world.1, { world.2 with engine })

def edit (change : Files → Files) (world : Clock × Recorded) : Clock × Recorded :=
  let files := change world.2.engine.files
  (world.1, ⟨{ world.2.engine with files }, world.2.incidents ++ [.edited files]⟩)

/-- Changes the engine without a cycle and without its files. -/
def aside (change : Clock × Engine → Clock × Engine) (world : Clock × Recorded) :
    Clock × Recorded :=
  let (clock, engine) := change (plain world)
  (clock, { world.2 with engine })

def perform (cwd : List String) (world : Clock × Recorded) : Deed → Clock × Recorded
  | .regenerate trigger => cycle cwd trigger world
  | .notify event path => aside (notify cwd event path) world
  | .schedule => aside schedule world
  | .close => aside close world
  | .advance seconds more =>
    Clock.advanceTo (wake cwd) (world.1.now + seconds) (world.1.live + more) world
  | .edit change => edit change world

/-! Keeping a history changes nothing. -/

theorem plain_wake (cwd : List String) (number : Nat) (world : Clock × Recorded) :
    plain (wake cwd number world) = Engine.wake cwd number (plain world) := by
  rw [wake, Engine.wake]
  change plain (match world.2.engine.controller.debouncer.wake? number with
    | none => world
    | some debouncer => _) =
    match world.2.engine.controller.debouncer.wake? number with
    | none => plain world
    | some debouncer => _
  cases world.2.engine.controller.debouncer.wake? number with
  | none => rfl
  | some debouncer => rfl

theorem plain_advanceTo (cwd : List String) (target : Rat) (fuel : Nat)
    (world : Clock × Recorded) : plain (Clock.advanceTo (wake cwd) target fuel world) =
      Clock.advanceTo (Engine.wake cwd) target fuel (plain world) := by
  have follows (number : Nat) (clock : Clock) (r : Recorded) :
      Engine.wake cwd number (clock, r.engine) = plain (wake cwd number (clock, r)) :=
    (plain_wake cwd number (clock, r)).symm
  exact (Clock.advanceTo_map engine follows target fuel world.1 world.2).symm

theorem plain_perform (cwd : List String) (world : Clock × Recorded) (deed : Deed) :
    plain (perform cwd world deed) = Engine.perform cwd (plain world) deed := by
  cases deed with
  | advance seconds more => exact plain_advanceTo cwd _ _ world
  | _ => rfl

theorem plain_foldl_perform (cwd : List String) (world : Clock × Recorded) (deeds : List Deed) :
    plain (deeds.foldl (perform cwd) world) = deeds.foldl (Engine.perform cwd) (plain world) := by
  induction deeds generalizing world with
  | nil => rfl
  | cons deed rest ih => rw [List.foldl_cons, List.foldl_cons, ih, plain_perform]

end Recorded

/-! What is asked of a debouncer touches nothing else of an engine. -/

theorem schedule_eq (world : Clock × Engine) : ∃ debouncer, (schedule world).2 =
    { world.2 with controller := { world.2.controller with debouncer } } :=
  ⟨_, rfl⟩

theorem foldl_obey_eq (world : Clock × Engine) (commands : List Command) :
    ∃ debouncer, (commands.foldl obey world).2 =
      { world.2 with controller := { world.2.controller with debouncer } } := by
  induction commands generalizing world with
  | nil => exact ⟨world.2.controller.debouncer, rfl⟩
  | cons command rest ih =>
    obtain ⟨debouncer, later⟩ := ih (obey world command)
    refine ⟨debouncer, ?_⟩
    rw [List.foldl_cons, later]
    cases command with
    | trigger => rfl
    | cancel => rfl

theorem settle_eq (world : Clock × Engine) : ∃ debouncer, (settle world).2 =
    { world.2 with controller := { world.2.controller with debouncer, commands := [] } } :=
  foldl_obey_eq (world.1, { world.2 with controller := { world.2.controller with commands := [] } })
    world.2.controller.commands

/-- An event that is told of adds a line to the log at most, and then asks for a cycle. -/
theorem handleEvent_ok {cwd : List String} {event path : String} {world told : Clock × Engine}
    {asked : Bool} (h : handleEvent cwd event path world = .ok (told, asked)) :
    told = world ∨ ∃ message, told = schedule (world.1, world.2.log .debug message) := by
  rw [handleEvent] at h
  split at h
  · cases resolved : world.2.files.resolve cwd (.ofString path) with
    | error fault =>
      rw [resolved] at h
      cases h
    | ok changed =>
      rw [resolved, Except.map] at h
      split at h
      · cases h
        exact .inr ⟨_, rfl⟩
      · cases h
        exact .inl rfl
  · cases h
    exact .inl rfl

theorem notify_eq (cwd : List String) (event path : String) (world : Clock × Engine) :
    notify cwd event path world = world ∨ ∃ message,
      notify cwd event path world = schedule (world.1, world.2.log .debug message) := by
  rw [notify]
  split
  · exact .inl rfl
  · rename_i handled
    exact handleEvent_ok handled

/-! What holds throughout a run. -/

namespace Recorded

theorem runs_ran (r : Recorded) (engine : Engine) (run : CycleRun) :
    (Recorded.mk engine (r.incidents ++ [.ran run])).runs = r.runs ++ [run] :=
  List.filterMap_append

theorem runs_edited (r : Recorded) (engine : Engine) (files : Files) :
    (Recorded.mk engine (r.incidents ++ [.edited files])).runs = r.runs :=
  (List.filterMap_append).trans (List.append_nil _)

/-- A property that outlasts a cycle, and what happens between cycles: the files change, something
is logged, and a debouncer works. -/
structure Lasting (cwd : List String) (holds : Recorded → Prop) : Prop where
  ran : ∀ (r : Recorded) (trigger : String), holds r →
    let run : CycleRun := ⟨r.engine, trigger⟩
    holds ⟨run.after cwd, r.incidents ++ [.ran run]⟩
  edited : ∀ (r : Recorded) (files : Files), holds r →
    holds ⟨{ r.engine with files }, r.incidents ++ [.edited files]⟩
  logged : ∀ (r : Recorded) (message : String), holds r →
    holds { r with engine := r.engine.log .debug message }
  debounced : ∀ (r : Recorded) (debouncer : Debouncer) (commands : List Command), holds r →
    holds { r with engine :=
      { r.engine with controller := { r.engine.controller with debouncer, commands } } }

variable {cwd : List String} {holds : Recorded → Prop} {world : Clock × Recorded}

/-- The debouncer of an engine has worked, and nothing else. -/
theorem Lasting.worked (lasting : Lasting cwd holds) {r : Recorded} (h : holds r) {engine : Engine}
    (same : ∃ debouncer commands, engine =
      { r.engine with controller := { r.engine.controller with debouncer, commands } }) :
    holds { r with engine } := by
  obtain ⟨debouncer, commands, rfl⟩ := same
  exact lasting.debounced r debouncer commands h

theorem Lasting.cycle (lasting : Lasting cwd holds) (h : holds world.2) (trigger : String) :
    holds (Recorded.cycle cwd trigger world).2 := by
  obtain ⟨clock, r⟩ := world
  obtain ⟨debouncer, settled⟩ := settle_eq (clock, (r.engine.regenerate cwd trigger).1)
  exact lasting.worked (lasting.ran r trigger h) ⟨debouncer, [], settled⟩

theorem Lasting.wake (lasting : Lasting cwd holds) (h : holds world.2) (number : Nat) :
    holds (Recorded.wake cwd number world).2 := by
  rw [Recorded.wake]
  dsimp only
  split
  · exact h
  · rename_i debouncer _
    refine lasting.cycle ?_ "change"
    exact lasting.worked h ⟨debouncer, _, rfl⟩

theorem Lasting.perform (lasting : Lasting cwd holds) (h : holds world.2) (deed : Deed) :
    holds (Recorded.perform cwd world deed).2 := by
  cases deed with
  | regenerate trigger => exact lasting.cycle h trigger
  | notify event path =>
    rcases notify_eq cwd event path (plain world) with same | ⟨message, asked⟩
    · have engine : (notify cwd event path (plain world)).2 = world.2.engine :=
        congrArg Prod.snd same
      exact lasting.worked h ⟨_, _, engine⟩
    · obtain ⟨debouncer, scheduled⟩ :=
        schedule_eq (world.1, world.2.engine.log .debug message)
      exact lasting.worked (lasting.logged world.2 message h)
        ⟨debouncer, _, (congrArg Prod.snd asked).trans scheduled⟩
  | schedule => exact lasting.worked h ⟨_, _, rfl⟩
  | close => exact lasting.worked h ⟨_, _, rfl⟩
  | advance seconds more =>
    refine Clock.advanceTo_keeps holds (fun number clock r before => ?_) _ _ h
    have before : holds (clock, r).2 := before
    exact lasting.wake before number
  | edit change => exact lasting.edited world.2 (change world.2.engine.files) h

theorem Lasting.foldl_perform (lasting : Lasting cwd holds) (h : holds world.2)
    (deeds : List Deed) : holds (deeds.foldl (Recorded.perform cwd) world).2 := by
  induction deeds generalizing world with
  | nil => exact h
  | cons deed rest ih => exact ih (lasting.perform h deed)

end Recorded

end ThemeSheet.Engine
