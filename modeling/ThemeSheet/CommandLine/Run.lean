import ThemeSheet.CommandLine.Commands
import ThemeSheet.CommandLine.Json
import ThemeSheet.Cycle.Engine
import ThemeSheet.Watcher

namespace ThemeSheet.CommandLine

inductive Stream
  | out
  | err
deriving DecidableEq, Repr

/-- A piece of what a command writes. -/
structure Chunk where
  stream : Stream
  text : String
deriving DecidableEq, Repr

def out (text : String) : Chunk := ⟨.out, text⟩

def err (text : String) : Chunk := ⟨.err, text⟩

/-- All that was written to one stream. -/
def written (stream : Stream) (chunks : List Chunk) : String :=
  String.join ((chunks.filter (·.stream == stream)).map (·.text))

/-- Where commands run: the machine, how tools are started there, and the least level of what is
logged. -/
structure Setting where
  host : Format.Host
  launch : Format.Launcher
  threshold : Level

namespace Setting

def cwd (setting : Setting) : List String :=
  setting.host.cwd

def showRecord (setting : Setting) (record : LogRecord) : List Chunk :=
  if record.reaches setting.threshold then
    [err s!"{record.level.label} {record.logger}: {record.message}\n"]
  else []

def showRecords (setting : Setting) (records : List LogRecord) : List Chunk :=
  records.flatMap setting.showRecord

/-- What is written about a trace, with the events as `showEvent` says. -/
def showTrace (setting : Setting) (showEvent : CycleEvent → List Chunk)
    (trace : List Occurrence) : List Chunk :=
  trace.flatMap fun occurrence =>
    match occurrence with
    | .log record => setting.showRecord record
    | .event event => showEvent event
    | _ => []

end Setting

/-- A fault that no command provides for. -/
inductive Breakdown
  | path (error : FileError)
  | source (fault : SourceFault)
  | module (fault : ModuleFault)
deriving DecidableEq, Repr

def Breakdown.message : Breakdown → String
  | path error => error.message
  | source fault => fault.message
  | module fault => fault.message

/-- Why a command does not start. -/
inductive StartFault
  | refused (fault : UsageFault)
  | broken (fault : Breakdown)
deriving DecidableEq, Repr

def StartFault.ofConfig : ConfigFault → StartFault
  | .noModule _ (.relative name) => broken (.module (.relative name))
  | fault => refused (.config fault)

/-- A command that has ended, by itself or by a fault that it does not provide for. -/
structure Result where
  files : Files
  chunks : List Chunk
  exitCode : Nat
  breakdown : Option Breakdown

def Result.broken (files : Files) (chunks : List Chunk) (fault : Breakdown) : Result :=
  ⟨files, chunks, 1, some fault⟩

def failureChunk (kind message : String) : Chunk :=
  err s!"Error ({kind}): {message}\n"

def sourceOf (given : Given) : Path :=
  .ofString (given.words.headD "")

/-- The configuration that the switches ask for. The classifier is looked up before anything else is
checked. -/
def configGiven (given : Given) (delay : Rat) : Except StartFault Config := do
  let text (switch : Switch) : String := (given.value? switch).getD ""
  let path? (switch : Switch) : Option Path := (given.value? switch).map Path.ofString
  let classifier ← (ClassifierSpec.load (text .classifier)).mapError .ofConfig
  (Config.make (sourceOf given) (text .name) (.ofString (text .output))
    (text .space) (some classifier) (path? .prettierConfig) (path? .eslintConfig) delay
    (!given.has .noFormat)).mapError .ofConfig

/-- A configuration as commands on a machine see it, with every path absolute. -/
def configSeen (fs : Files) (host : Format.Host) (config : Config) : Except StartFault Config :=
  (config.resolve fs (.absolute host.cwd)).mapError fun error => .broken (.path error)

def configOf (fs : Files) (host : Format.Host) (given : Given) (delay : Rat) :
    Except StartFault Config := do
  configSeen fs host (← configGiven given delay)

/-- An engine for a configuration, with the tools that are installed. -/
def engineFor (setting : Setting) (fs : Files) (config : Config) : Engine :=
  { controller := .make config
      (.installed setting.host setting.launch Controller.logger config) .empty
    files := fs
    trace := [] }

/-- Runs one cycle. What the engine works with is looked for once more, from the paths that were
found. -/
def runGenerate (setting : Setting) (fs : Files) (given : Given) : Except StartFault Result := do
  let config ← configOf fs setting.host given Config.defaultDelay
  let controlled ← configSeen fs setting.host config
  let (engine, outcome) := (engineFor setting fs controlled).start setting.cwd
  let shown := setting.showTrace (fun _ => []) engine.trace
  let closing := match outcome.output with
    | some output => out s!"Wrote {outcome.count} variable(s) to {output.text}\n"
    | none => failureChunk outcome.errorKind outcome.error
  return ⟨engine.files, shown ++ [closing], if outcome.succeeded then 0 else 1, none⟩

/-- Why nothing is shown of a source. -/
inductive InspectFault
  /-- A fault that is told by its kind. -/
  | told (kind message : String)
  | broken (fault : Breakdown)
deriving DecidableEq, Repr

namespace InspectFault

def ofConfig : ConfigFault → InspectFault
  | .noModule _ (.relative name) => broken (.module (.relative name))
  | fault => told "config" fault.message

def ofSource (fault : SourceFault) : InspectFault :=
  if fault.isUnexpected then broken (.source fault) else told fault.kind fault.message

def ofGeneration (fault : GenerationFault) : InspectFault :=
  told "generation" fault.message

end InspectFault

/-- The entries of a literal or the properties made of them, as JSON. -/
def inspection (fs : Files) (cwd : List String) (given : Given) :
    List LogRecord × Except InspectFault String :=
  let text (switch : Switch) : String := (given.value? switch).getD ""
  match Target.make (sourceOf given) (text .name) with
  | .error fault => ([], .error (.ofConfig fault))
  | .ok target =>
    match Source.extract fs cwd target with
    | (logs, .error fault) => (logs, .error (.ofSource fault))
    | (logs, .ok mapping) =>
      if given.has .descriptors then
        match ClassifierSpec.load (text .classifier) with
        | .error fault => (logs, .error (.ofConfig fault))
        | .ok classifier =>
          match Stylesheet.properties (text .space) classifier mapping with
          | .error fault => (logs, .error (.ofGeneration fault))
          | .ok ps => (logs, .ok (propertiesJson ps))
      else (logs, .ok (mappingJson mapping))

def runInspect (setting : Setting) (fs : Files) (given : Given) : Result :=
  match inspection fs setting.cwd given with
  | (logs, .error (.told kind message)) =>
    ⟨fs, setting.showRecords logs ++ [failureChunk kind message], 1, none⟩
  | (logs, .error (.broken fault)) => .broken fs (setting.showRecords logs) fault
  | (logs, .ok text) => ⟨fs, setting.showRecords logs ++ [out (text ++ "\n")], 0, none⟩

/-- A watch command at work. -/
structure Watching where
  setting : Setting
  clock : Clock
  engine : Engine
  watcher : Watcher

namespace Watching

def showEvent : CycleEvent → List Chunk
  | .succeeded output count => [out s!"Updated {output.text} ({count} variables)\n"]
  | .failed error kind => [err s!"Failed ({kind}): {error}\n"]
  | _ => []

/-- Shows what has happened, and forgets it. -/
def flush (w : Watching) : Watching × List Chunk :=
  ({ w with engine := { w.engine with trace := [] } },
    w.setting.showTrace showEvent w.engine.trace)

/-- Looks at a source for the first time, after an engine has run its first cycle. -/
def observe (setting : Setting) (source : Path) (engine : Engine) (watcher : Watcher) :
    Watching × List Chunk :=
  let (w, chunks) := flush ⟨setting, .initial, engine, watcher⟩
  (w, chunks ++ [out s!"Watching {source.text} (Ctrl-C to stop)\n"])

/-- Looks at the source once. -/
def poll (w : Watching) : Watching :=
  let (watcher, event?) := w.watcher.poll w.engine.files w.setting.cwd
  let w := { w with watcher }
  match event? with
  | none => w
  | some event =>
    match Engine.handleEvent w.setting.cwd event.name watcher.path.text (w.clock, w.engine) with
    | .error _ => { w with engine := w.engine.note (.log watcher.failureNote) }
    | .ok ((clock, engine), _) => { w with clock, engine }

/-- Seconds between two looks. -/
def pause : Rat := 1 / 2

/-- Lets time pass. No listener of a watch command asks for a cycle. -/
def pass (w : Watching) : Watching :=
  let (clock, engine) := Engine.advance w.setting.cwd pause 0 (w.clock, w.engine)
  { w with clock, engine }

/-- One round, in which the files change first: looks at the source and lets time pass. -/
def step (w : Watching) (edit : Files → Files) : Watching × List Chunk :=
  let edited := { w with engine := { w.engine with files := edit w.engine.files } }
  edited.poll.pass.flush

/-- Ends the command. What is pending is dropped. -/
def stop (w : Watching) : Result :=
  ⟨w.engine.files, [out "Stopped.\n"], 0, none⟩

end Watching

/-- What comes of starting a command line: it ends at once, or it goes on watching. -/
inductive Started
  | ended (result : Result)
  | watching (w : Watching) (chunks : List Chunk)

/-- Watches the source that was found, whatever the engine found from there. -/
def startWatch (setting : Setting) (fs : Files) (given : Given) : Except StartFault Started := do
  let delay := ((given.value? .debounce).bind readReal?).getD Config.defaultDelay
  let config ← configOf fs setting.host given delay
  let controlled ← configSeen fs setting.host config
  let engine := ((engineFor setting fs controlled).start setting.cwd).1
  match Watcher.make engine.files setting.cwd config.source with
  | .error error =>
    let shown := setting.showTrace Watching.showEvent engine.trace
    return .ended (.broken engine.files shown (.path error))
  | .ok watcher =>
    let (w, chunks) := Watching.observe setting config.source engine watcher
    return .watching w chunks

/-- Runs a command with the words after its name. -/
def startCommand (setting : Setting) (fs : Files) (command : Command) (arguments : List String) :
    Except StartFault Started := do
  let given ← (readWords (command.switches ++ [helpSwitch]) true none arguments).mapError .refused
  if given.has helpSwitch then return .ended ⟨fs, [out command.help], 0, none⟩
  (given.check fs setting.cwd command.switches).mapError .refused
  if command = .generate then .ended <$> runGenerate setting fs given
  else if command = .inspect then return .ended (runInspect setting fs given)
  else startWatch setting fs given

/-- Runs a command line. -/
def start (host : Format.Host) (launch : Format.Launcher) (fs : Files) (arguments : List String) :
    Started :=
  let refused (usage program : String) (fault : UsageFault) : Started :=
    .ended ⟨fs, [err (refusal usage program fault)], 2, none⟩
  let refusedHere := refused generalUsage "cssvars"
  let general (words : List String) (go : Given → Started) : Started :=
    match readWords (generalSwitches ++ [helpSwitch]) false none words with
    | .error fault => refusedHere fault
    | .ok given =>
      match (given.switches.map (·.1)).find? fun s => s == .version || s == helpSwitch with
      | some switch =>
        .ended ⟨fs, [out (if switch = .version then versionText else generalHelp)], 0, none⟩
      | none => go given
  if arguments.isEmpty then .ended ⟨fs, [err generalHelp], 2, none⟩
  else
    general arguments fun given =>
      match given.words with
      | [] => refusedHere .commandMissing
      | name :: rest =>
        match Command.find? name with
        | none =>
          -- What stands in a command's place but is written as a switch is read as one.
          general given.words fun _ =>
            refusedHere (.noSuchCommand name (Command.closeNames name))
        | some command =>
          let threshold := if given.has .verbose then Level.debug else Level.info
          match startCommand ⟨host, launch, threshold⟩ fs command rest with
          | .ok started => started
          | .error (.refused fault) =>
            refused command.usage s!"cssvars {command.name}" fault
          | .error (.broken fault) => .ended (.broken fs [] fault)

end ThemeSheet.CommandLine
