import ThemeSheet.Cycle.Event
import ThemeSheet.Cycle.Outcome
import ThemeSheet.Debouncer
import ThemeSheet.Files.AtomicWrite
import ThemeSheet.Format.Formatter
import ThemeSheet.Source
import ThemeSheet.Stylesheet

namespace ThemeSheet

open Literal (Mapping)

/-- The stage a cycle is in. -/
inductive CycleState
  | idle
  | extracting
  | generating
  | writing
  | formatting
deriving DecidableEq, Repr

def CycleState.name : CycleState → String
  | idle => "idle"
  | extracting => "extracting"
  | generating => "generating"
  | writing => "writing"
  | formatting => "formatting"

/-- Why a cycle fails. -/
inductive CycleFault
  | source (fault : SourceFault)
  | generation (fault : GenerationFault)
  | output (path : Path) (error : FileError)
  | formatting (fault : Format.Fault)
deriving DecidableEq, Repr

namespace CycleFault

def message : CycleFault → String
  | source fault => fault.message
  | generation fault => fault.message
  | output path error => s!"Cannot write {path.text}: {error.message}"
  | formatting fault => fault.message

def kind : CycleFault → String
  | source fault => fault.kind
  | generation _ => "generation"
  | output .. => "io"
  | formatting _ => "error"

/-- Faults that are no fault of the files or the configuration. -/
def isUnexpected : CycleFault → Bool
  | source fault => fault.isUnexpected
  | generation _ => false
  | output .. => false
  | formatting _ => true

end CycleFault

/-- What a cycle shows on its way. -/
inductive Occurrence
  | log (record : LogRecord)
  | event (event : CycleEvent)
  | formatterAsked
  | formatting (kind : FormatterKind) (path : Path) (state : CycleState)
deriving DecidableEq, Repr

/-- Keeps one output file up to date with one source file. The paths in `config` are absolute;
`commands` are those that listeners have given and that are still to be carried out. -/
structure Controller where
  config : Config
  formatters : FormatterSource
  formatter : Option Formatter
  bus : Bus CycleEvent
  state : CycleState
  debouncer : Debouncer
  cycles : Nat
  asked : Nat
  commands : List Command

/-- A controller, the files it works on, and all that it has shown so far. -/
structure Engine where
  controller : Controller
  files : Files
  trace : List Occurrence

namespace Controller

def logger : String := "cssvars.engine.controller"

def make (config : Config) (formatters : FormatterSource) (bus : Bus CycleEvent) : Controller :=
  { config, formatters, formatter := none, bus, state := .idle
    debouncer := .make config.delay, cycles := 0, asked := 0, commands := [] }

end Controller

namespace Engine

def note (e : Engine) (occurrence : Occurrence) : Engine :=
  { e with trace := e.trace ++ [occurrence] }

def log (e : Engine) (level : Level) (message : String) : Engine :=
  e.note (.log ⟨level, Controller.logger, message⟩)

def logAll (e : Engine) (records : List LogRecord) : Engine :=
  { e with trace := e.trace ++ records.map .log }

/-- Tells every listener; those that fail are noted after the event. -/
def emit (e : Engine) (event : CycleEvent) : Engine :=
  let emission := e.controller.bus.emit event
  let controller := { e.controller with
    bus := emission.bus
    commands := e.controller.commands ++ emission.commands }
  ({ e with controller }.note (.event event)).logAll emission.logs

def enter (e : Engine) (state : CycleState) : Engine :=
  { e with controller := { e.controller with state } }

def config (e : Engine) : Config :=
  e.controller.config

/-- Reads the source and takes the mapping out of it. -/
def extract (cwd : List String) (e : Engine) : Engine × Except CycleFault Mapping :=
  let e := e.enter .extracting
  let (logs, result) := Source.extract e.files cwd e.config.target
  (e.logAll logs, result.mapError .source)

def generate (mapping : Mapping) (e : Engine) : Engine × Except CycleFault String :=
  let e := e.enter .generating
  (e, (Stylesheet.render mapping e.config.space e.config.classifier).mapError .generation)

def write (cwd : List String) (text : String) (e : Engine) : Engine × Except CycleFault Unit :=
  let e := e.enter .writing
  let run := e.files.writeAtomic cwd e.config.output text
  let e := { e with files := run.files e.files }
  match run.error with
  | some error => (e, .error (.output e.config.output error))
  | none => (e, .ok ())

/-- The formatter, made the first time it is needed and kept if it could be made. -/
def formatter (e : Engine) : Engine × Except Format.Fault Formatter :=
  match e.controller.formatter with
  | some formatter => (e, .ok formatter)
  | none =>
    let (logs, made) := e.controller.formatters e.controller.asked e.files
    let controller := { e.controller with
      asked := e.controller.asked + 1
      formatter := made.toOption }
    (({ e with controller }.note .formatterAsked).logAll logs, made)

/-- Has the formatter change a file. -/
def runFormatter (path : Path) (e : Engine) : Engine × Except Format.Fault Unit :=
  match e.formatter with
  | (e, .error fault) => (e, .error fault)
  | (e, .ok formatter) =>
    let e := e.note (.formatting formatter.kind path e.controller.state)
    let (files, result) := formatter.format path e.files
    ({ e with files }, result)

/-- Formats the output. A fault that is expected of tools is told and otherwise ignored. -/
def format (e : Engine) : Engine × Except CycleFault Unit :=
  let e := e.enter .formatting
  match e.runFormatter e.config.output with
  | (e, .ok ()) => (e, .ok ())
  | (e, .error fault) =>
    if fault.isExpected then
      ((e.log .warning s!"Formatting error: {fault.message}").emit
        (.formattingFailed e.config.output fault.message), .ok ())
    else (e, .error (.formatting fault))

/-- The stages in order, up to the first that fails. The result is the size of the mapping. -/
def stages (cwd : List String) (e : Engine) : Engine × Except CycleFault Nat :=
  match e.extract cwd with
  | (e, .error fault) => (e, .error fault)
  | (e, .ok mapping) =>
    match e.generate mapping with
    | (e, .error fault) => (e, .error fault)
    | (e, .ok text) =>
      match e.write cwd text with
      | (e, .error fault) => (e, .error fault)
      | (e, .ok ()) =>
        match e.format with
        | (e, .error fault) => (e, .error fault)
        | (e, .ok ()) => (e, .ok mapping.length)

def succeed (count : Nat) (e : Engine) : Engine × Outcome :=
  let output := e.config.output
  ((e.log .info s!"CSS variables updated: {output.text}").emit (.succeeded output count),
    .success output count)

def fail (fault : CycleFault) (e : Engine) : Engine × Outcome :=
  let e := if fault.isUnexpected then e.log .error "Unexpected error during CSS generation" else e
  ((e.log .error s!"CSS generation failed ({fault.kind}): {fault.message}").emit
      (.failed fault.message fault.kind),
    .failure fault.message fault.kind)

/-- Runs one cycle from the source to the formatted output. -/
def regenerate (cwd : List String) (trigger : String) (e : Engine) : Engine × Outcome :=
  let counted := { e with controller := { e.controller with cycles := e.controller.cycles + 1 } }
  let started := counted.emit (.started e.config.source trigger)
  let (e, outcome) := match started.stages cwd with
    | (e, .ok count) => e.succeed count
    | (e, .error fault) => e.fail fault
  (e.enter .idle, outcome)

def start (cwd : List String) (e : Engine) : Engine × Outcome :=
  e.regenerate cwd "start"

/-- Asks for a cycle after the delay. -/
def schedule (world : Clock × Engine) : Clock × Engine :=
  let (clock, debouncer) := world.2.controller.debouncer.trigger world.1
  (clock, { world.2 with controller := { world.2.controller with debouncer } })

/-- Drops the cycle asked for, if one is pending. -/
def close (world : Clock × Engine) : Clock × Engine :=
  let (clock, debouncer) := world.2.controller.debouncer.cancel world.1
  (clock, { world.2 with controller := { world.2.controller with debouncer } })

def pending (e : Engine) : Bool :=
  e.controller.debouncer.pending.isSome

def obey (world : Clock × Engine) : Command → Clock × Engine
  | .trigger => schedule world
  | .cancel => close world

/-- Carries out the commands of listeners. -/
def settle (world : Clock × Engine) : Clock × Engine :=
  let (clock, e) := world
  e.controller.commands.foldl obey
    (clock, { e with controller := { e.controller with commands := [] } })

/-- Runs one cycle. No time passes in it, and no stage looks at what is pending, so the commands that
listeners give on the way can wait for its end. -/
def cycle (cwd : List String) (trigger : String) (world : Clock × Engine) :
    (Clock × Engine) × Outcome :=
  let (e, outcome) := world.2.regenerate cwd trigger
  (settle (world.1, e), outcome)

/-- Events of a file that ask for a cycle. -/
def watchedEvents : List String := ["change", "add"]

/-- Asks for a cycle if the event is one that changes the source. Tells whether it did. -/
def handleEvent (cwd : List String) (event path : String) (world : Clock × Engine) :
    Except FileError ((Clock × Engine) × Bool) :=
  let (clock, e) := world
  if watchedEvents.contains event then
    (e.files.resolve cwd (.ofString path)).map fun changed =>
      if changed = e.config.source then
        (schedule (clock, e.log .debug s!"{event} event on {path}"), true)
      else (world, false)
  else .ok (world, false)

/-- Runs the cycle that the timer was started for. -/
def wake (cwd : List String) (number : Nat) (world : Clock × Engine) : Clock × Engine :=
  let (clock, e) := world
  match e.controller.debouncer.wake? number with
  | none => world
  | some debouncer =>
    (cycle cwd "change" (clock, { e with controller := { e.controller with debouncer } })).1

/-- Lets time pass. Every wake-up takes a live timer or one of the `more` that listeners may yet have
started. -/
def advance (cwd : List String) (seconds : Rat) (more : Nat) (world : Clock × Engine) :
    Clock × Engine :=
  Clock.advanceTo (wake cwd) (world.1.now + seconds) (world.1.live + more) world

/-- Wakes the last timer that was cancelled, as if it had been too late to stop it. -/
def wakeStale (cwd : List String) (world : Clock × Engine) : (Clock × Engine) × Bool :=
  match world.1.lastStale? with
  | none => (world, false)
  | some number => (wake cwd number (world.1.markRan number, world.2), true)

end Engine
end ThemeSheet
