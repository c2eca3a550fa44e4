import Mathlib.Data.List.Basic
import ThemeSheet.Format.Formatter

/-! Which tools a formatting starts, in what order, and with which faults it can end. -/

namespace ThemeSheet.Format

/-- A start of a tool: its command, the exit codes that are no fault, the files that it found, and
what came of it. -/
structure Run where
  command : List String
  accepted : List Int
  found : Files
  came : Launch

namespace Run

/-- What a run is taken for: that of a launcher that always answers as this one did. -/
def outcome (run : Run) : Files × Except Fault Unit :=
  runTool (fun _ _ _ => run.came) run.command (.absolute []) (.absolute []) run.accepted run.found

/-- The files as the tool left them. -/
def left (run : Run) : Files :=
  run.outcome.1

/-- Whether the run is a fault. -/
def verdict (run : Run) : Except Fault Unit :=
  run.outcome.2

end Run

/-- A part of a formatting: the tools it started, first to last, the files it left, and its
result. -/
structure History (α : Type) where
  runs : List Run
  files : Files
  result : Except Fault α

namespace History

variable {α β : Type}

/-- Nothing is started. -/
def done (value : α) (fs : Files) : History α :=
  ⟨[], fs, .ok value⟩

/-- What is next comes to pass unless there was a fault. -/
def bind (first : History α) (next : α → Files → History β) : History β :=
  match first.result with
  | .error fault => ⟨first.runs, first.files, .error fault⟩
  | .ok value =>
    let rest := next value first.files
    ⟨first.runs ++ rest.runs, rest.files, rest.result⟩

end History

/-- The directory that tools are started in. -/
def Tools.workplace (tools : Tools) (host : Host) : Path :=
  tools.directory.getD (.absolute host.cwd)

section Formatting

variable (launch : Launcher) (host : Host) (tools : Tools) (path : Path)

/-- Runs a tool on the file. -/
def start (command : List String) (accepted : List Int) (fs : Files) : History Unit :=
  let came := launch (command ++ [path.text]) (tools.workplace host) fs
  let run : Run := ⟨command, accepted, fs, came⟩
  ⟨[run], run.left, run.verdict⟩

/-- Reads the file. -/
def readBack (fs : Files) : History String :=
  ⟨[], fs, (fs.readText host.cwd path).mapError .ofRead⟩

/-- Runs a tool that has a command. -/
def startAny (command? : Option (List String)) (accepted : List Int) (fs : Files) : History Unit :=
  match command? with
  | none => .done () fs
  | some command => start launch host tools path command accepted fs

/-- Runs prettier again if the file no longer holds the text. -/
def tidy (text : String) (fs : Files) : History Unit :=
  match command? tools.prettier with
  | none => .done () fs
  | some prettier =>
    (readBack host path fs).bind fun now fs =>
      if now = text then .done () fs else start launch host tools path prettier [0] fs

/-- Runs eslint, and prettier after it. -/
def check (fs : Files) : History Unit :=
  match command? tools.eslint with
  | none => .done () fs
  | some eslint =>
    (readBack host path fs).bind fun text fs =>
      (start launch host tools path eslint [0, 1] fs).bind fun () fs =>
        tidy launch host tools path text fs

/-- Formats the file, and keeps account of the tools started. -/
def history (fs : Files) : History Unit :=
  (startAny launch host tools path (command? tools.prettier) [0] fs).bind fun () fs =>
    check launch host tools path fs

end Formatting

/-! What a run is taken for. -/

namespace Run

/-- The faults of a run that are not the tool's: that it was not even refused by the system, or that
what it wrote is no text. -/
inductive Illegible (run : Run) : Fault → Prop
  | refused {error : FileError} (came : run.came = .refused error)
    (other : error.isRefusal = false) : Illegible run (.file error)
  | written {fs : Files} {code : Int} {output errors bytes : List UInt8} {error : Text.Utf8Error}
    (came : run.came = .finished fs code output errors) (source : bytes ∈ [output, errors])
    (garbled : Text.decodeUtf8 bytes = .error error) : Illegible run (.encoding error)

variable {run : Run}

theorem left_finished {fs : Files} {code : Int} {output errors : List UInt8}
    (came : run.came = .finished fs code output errors) : run.left = fs := by
  simp only [left, outcome, runTool, came]

theorem outputText_error {bytes : List UInt8} {fault : Fault}
    (h : outputText bytes = .error fault) :
    ∃ error, Text.decodeUtf8 bytes = .error error ∧ fault = .encoding error := by
  rw [outputText] at h
  split at h
  · cases h
  · rename_i error garbled
    cases h
    exact ⟨error, garbled, rfl⟩

/-- A run that is no fault came to its end with an exit code that is none. -/
theorem finished_of_verdict (fine : run.verdict = .ok ()) :
    ∃ code output errors, run.came = .finished run.left code output errors ∧
      code ∈ run.accepted := by
  cases came : run.came with
  | refused error => simp [verdict, outcome, runTool, came] at fine
  | finished fs code output errors =>
    refine ⟨code, output, errors, by rw [left_finished came], ?_⟩
    simp only [verdict, outcome, runTool, came, bind, Except.bind] at fine
    split at fine
    · cases fine
    split at fine
    · cases fine
    split at fine
    · rename_i accepted
      simpa using accepted
    · cases fine

/-- A fault of a run that no tool should have comes of what is not legible. -/
theorem illegible_of_verdict {fault : Fault} (failed : run.verdict = .error fault)
    (unexpected : fault.isExpected = false) : run.Illegible fault := by
  cases came : run.came with
  | refused error =>
    simp only [verdict, outcome, runTool, came] at failed
    cases failed
    cases refusal : error.isRefusal with
    | true =>
      rw [refusal] at unexpected
      cases unexpected
    | false => exact .refused came refusal
  | finished fs code output errors =>
    simp only [verdict, outcome, runTool, came, bind, Except.bind] at failed
    split at failed
    · rename_i garbled
      cases failed
      obtain ⟨error, undecoded, rfl⟩ := outputText_error garbled
      exact .written came (by simp) undecoded
    split at failed
    · rename_i garbled
      cases failed
      obtain ⟨error, undecoded, rfl⟩ := outputText_error garbled
      exact .written came (by simp) undecoded
    split at failed
    · cases failed
    · cases failed
      cases unexpected

end Run

/-! What an account holds. -/

/-- The runs are a launcher's, each on the files as the one before it left them. -/
inductive Started (launch : Launcher) (directory path : Path) :
    Files → List Run → Files → Prop
  | none (fs : Files) : Started launch directory path fs [] fs
  | run {run : Run} {runs : List Run} {last : Files}
    (came : launch (run.command ++ [path.text]) directory run.found = run.came)
    (more : Started launch directory path run.left runs last) :
    Started launch directory path run.found (run :: runs) last

theorem Started.append {launch : Launcher} {directory path : Path} {fs between last : Files}
    {runs more : List Run} (first : Started launch directory path fs runs between)
    (rest : Started launch directory path between more last) :
    Started launch directory path fs (runs ++ more) last := by
  induction first with
  | none => exact rest
  | run came _ ih => exact .run came (ih rest)

/-- Where a fault comes from: from the last run, or from the file that could not be read after it.
No run before it is a fault. -/
inductive Stopped (host : Host) (path : Path) (fs : Files) : List Run → Fault → Prop
  | byRun {earlier : List Run} {run : Run} {fault : Fault}
    (fine : ∀ run ∈ earlier, run.verdict = .ok ()) (failed : run.verdict = .error fault) :
    Stopped host path fs (earlier ++ [run]) fault
  | byReading {runs : List Run} {unread : Files.ReadFault}
    (fine : ∀ run ∈ runs, run.verdict = .ok ())
    (failed : fs.readText host.cwd path = .error unread) :
    Stopped host path fs runs (.ofRead unread)

theorem Stopped.after {host : Host} {path : Path} {fs : Files} {runs more : List Run}
    {fault : Fault} (stopped : Stopped host path fs more fault)
    (before : ∀ run ∈ runs, run.verdict = .ok ()) : Stopped host path fs (runs ++ more) fault := by
  have both {more : List Run} (fine : ∀ run ∈ more, run.verdict = .ok ()) :
      ∀ run ∈ runs ++ more, run.verdict = .ok () := fun run mem =>
    (List.mem_append.mp mem).elim (before run) (fine run)
  cases stopped with
  | byRun fine failed =>
    rw [← List.append_assoc]
    exact .byRun (both fine) failed
  | byReading fine failed => exact .byReading (both fine) failed

/-- What is not legible after runs: a run, or the file that is then read. -/
inductive Illegible (host : Host) (path : Path) (fs : Files) (runs : List Run) : Fault → Prop
  | run {run : Run} {fault : Fault} (mem : run ∈ runs) (illegible : run.Illegible fault) :
    Illegible host path fs runs fault
  | text {error : Text.Utf8Error}
    (unread : fs.readText host.cwd path = .error (.encoding error)) :
    Illegible host path fs runs (.encoding error)
  | path {error : FileError} (unread : fs.readText host.cwd path = .error (.file error))
    (other : error.isRefusal = false) : Illegible host path fs runs (.file error)

theorem Illegible.unexpected {host : Host} {path : Path} {fs : Files} {runs : List Run}
    {fault : Fault} (illegible : Illegible host path fs runs fault) : fault.isExpected = false := by
  cases illegible with
  | run _ illegible =>
    cases illegible with
    | refused _ other => exact other
    | written => rfl
  | text => rfl
  | path _ other => exact other

/-- A fault is one that tools may have unless something is not legible. -/
theorem Stopped.unexpected_iff {host : Host} {path : Path} {fs : Files} {runs : List Run}
    {fault : Fault} (stopped : Stopped host path fs runs fault) :
    fault.isExpected = false ↔ Illegible host path fs runs fault := by
  refine ⟨fun unexpected => ?_, Illegible.unexpected⟩
  cases stopped with
  | byRun fine failed =>
    exact .run (List.mem_append_right _ List.mem_cons_self)
      (Run.illegible_of_verdict failed unexpected)
  | @byReading _ unread fine failed =>
    cases unread with
    | encoding error => exact .text failed
    | file error => exact .path failed unexpected

section

variable (launch : Launcher) (host : Host) (tools : Tools) (path : Path)

/-- An account is true: its runs took place, and no run is a fault but the one that it ends with. -/
structure History.Accounts {α : Type} (fs : Files) (h : History α) : Prop where
  started : Started launch (tools.workplace host) path fs h.runs h.files
  fine : ∀ value, h.result = .ok value → ∀ run ∈ h.runs, run.verdict = .ok ()
  stopped : ∀ fault, h.result = .error fault → Stopped host path h.files h.runs fault

end

section

variable {launch launch' : Launcher} {host : Host} {tools : Tools} {path : Path} {fs : Files}
  {α β : Type}

namespace History

theorem accounts_done (value : α) (fs : Files) :
    Accounts launch host tools path fs (done value fs) where
  started := .none fs
  fine := fun _ _ _ mem => by cases mem
  stopped := fun _ failed => by cases failed

theorem accounts_start (command : List String) (accepted : List Int) (fs : Files) :
    Accounts launch host tools path fs (start launch host tools path command accepted fs) where
  started := by
    let run : Run :=
      ⟨command, accepted, fs, launch (command ++ [path.text]) (tools.workplace host) fs⟩
    exact @Started.run _ _ _ run _ _ rfl (.none run.left)
  fine := fun _ ok _ mem => List.mem_singleton.mp mem ▸ ok
  stopped := fun _ failed => @Stopped.byRun _ _ _ [] _ _ (by simp) failed

theorem accounts_readBack (fs : Files) :
    Accounts launch host tools path fs (readBack host path fs) where
  started := .none fs
  fine := fun _ _ _ mem => by cases mem
  stopped := fun fault failed => by
    cases read : fs.readText host.cwd path with
    | ok text => simp [readBack, read, Except.mapError] at failed
    | error unread =>
      simp only [readBack, read, Except.mapError] at failed
      cases failed
      exact .byReading (by simp [readBack]) read

theorem Accounts.bind {fs : Files} {first : History α} {next : α → Files → History β}
    (account : Accounts launch host tools path fs first)
    (more : ∀ value fs, Accounts launch host tools path fs (next value fs)) :
    Accounts launch host tools path fs (first.bind next) := by
  obtain ⟨started, fine, stopped⟩ := account
  rw [History.bind]
  split
  · rename_i fault failed
    refine ⟨started, fun _ ok => (by cases ok), fun _ same => ?_⟩
    cases same
    exact stopped fault failed
  · rename_i value ok
    have rest := more value first.files
    refine ⟨started.append rest.started, fun value' ok' run mem => ?_, fun fault failed => ?_⟩
    · rcases List.mem_append.mp mem with mem | mem
      · exact fine value ok run mem
      · exact rest.fine value' ok' run mem
    · exact (rest.stopped fault failed).after (fine value ok)

theorem accounts_startAny (command? : Option (List String)) (accepted : List Int) (fs : Files) :
    Accounts launch host tools path fs
      (startAny launch host tools path command? accepted fs) := by
  cases command? with
  | none => exact accounts_done _ _
  | some command => exact accounts_start _ _ _

theorem accounts_tidy (text : String) (fs : Files) :
    Accounts launch host tools path fs (tidy launch host tools path text fs) := by
  rw [tidy]
  split
  · exact accounts_done _ _
  · refine (accounts_readBack fs).bind fun now fs => ?_
    split
    · exact accounts_done _ _
    · exact accounts_start _ _ _

theorem accounts_check (fs : Files) :
    Accounts launch host tools path fs (check launch host tools path fs) := by
  rw [check]
  split
  · exact accounts_done _ _
  · exact (accounts_readBack fs).bind fun text fs =>
      (accounts_start _ _ fs).bind fun _ fs => accounts_tidy text fs

theorem accounts_history (fs : Files) :
    Accounts launch host tools path fs (history launch host tools path fs) :=
  (accounts_startAny _ _ fs).bind fun _ fs => accounts_check fs

/-! What an account depends on. -/

/-- Launchers that answer the runs alike. -/
def Agrees (launch' : Launcher) (directory path : Path) (runs : List Run) : Prop :=
  ∀ run ∈ runs, launch' (run.command ++ [path.text]) directory run.found = run.came

theorem start_congr {command : List String} {accepted : List Int} {fs : Files}
    (agrees : Agrees launch' (tools.workplace host) path
      (start launch host tools path command accepted fs).runs) :
    start launch' host tools path command accepted fs =
      start launch host tools path command accepted fs := by
  have same := agrees _ List.mem_cons_self
  dsimp only at same
  rw [start, same]
  rfl

theorem bind_congr {directory : Path} {first first' : History α}
    {next next' : α → Files → History β}
    (agrees : Agrees launch' directory path (first.bind next).runs)
    (begun : Agrees launch' directory path first.runs → first' = first)
    (more : ∀ value fs, Agrees launch' directory path (next value fs).runs →
      next' value fs = next value fs) :
    first'.bind next' = first.bind next := by
  -- What comes next finds the same files and value, since the first parts are the same.
  rw [bind] at agrees
  split at agrees
  · rename_i fault failed
    rw [begun agrees, bind, bind, failed]
  · rename_i value ok
    rw [begun fun run mem => agrees run (List.mem_append_left _ mem), bind, bind, ok]
    dsimp only
    rw [more value first.files fun run mem => agrees run (List.mem_append_right _ mem)]

theorem startAny_congr {command? : Option (List String)} {accepted : List Int} {fs : Files}
    (agrees : Agrees launch' (tools.workplace host) path
      (startAny launch host tools path command? accepted fs).runs) :
    startAny launch' host tools path command? accepted fs =
      startAny launch host tools path command? accepted fs := by
  cases command? with
  | none => rfl
  | some command => exact start_congr agrees

theorem tidy_congr {text : String} {fs : Files}
    (agrees : Agrees launch' (tools.workplace host) path
      (tidy launch host tools path text fs).runs) :
    tidy launch' host tools path text fs = tidy launch host tools path text fs := by
  rw [tidy] at agrees
  rw [tidy, tidy]
  split at agrees
  · rfl
  · refine bind_congr agrees (fun _ => rfl) fun now fs agrees => ?_
    by_cases same : now = text
    · rw [if_pos same, if_pos same]
    · rw [if_neg same] at agrees ⊢
      rw [if_neg same]
      exact start_congr agrees

theorem check_congr {fs : Files}
    (agrees : Agrees launch' (tools.workplace host) path
      (check launch host tools path fs).runs) :
    check launch' host tools path fs = check launch host tools path fs := by
  rw [check] at agrees
  rw [check, check]
  split at agrees
  · rfl
  · exact bind_congr agrees (fun _ => rfl) fun text fs agrees =>
      bind_congr agrees start_congr fun _ fs agrees => tidy_congr agrees

theorem history_congr {fs : Files}
    (agrees : Agrees launch' (tools.workplace host) path
      (history launch host tools path fs).runs) :
    history launch' host tools path fs = history launch host tools path fs :=
  bind_congr agrees startAny_congr fun _ _ => check_congr

/-! What took place if there was no fault. -/

theorem bind_ok {first : History α} {next : α → Files → History β} {value : β}
    (ok : (first.bind next).result = .ok value) :
    ∃ before, first.result = .ok before ∧ (next before first.files).result = .ok value ∧
      (first.bind next).runs = first.runs ++ (next before first.files).runs := by
  rw [bind] at ok ⊢
  split at ok
  · cases ok
  · rename_i before same
    exact ⟨before, same, ok, rfl⟩

end History

/-- A tool that has a command ran once, to its end and with one of the exit codes; one that has none
did not run. -/
def RanOnce (command? : Option (List String)) (codes : List Int) (runs : List Run) : Prop :=
  match command? with
  | none => runs = []
  | some command => ∃ run code output errors, runs = [run] ∧ run.command = command ∧
      run.came = .finished run.left code output errors ∧ code ∈ codes

/-- The file was read before the run and after it, and as the same text. -/
def Run.KeepsText (host : Host) (path : Path) (run : Run) : Prop :=
  ∃ text, run.found.readText host.cwd path = .ok text ∧ run.left.readText host.cwd path = .ok text

/-- Prettier runs before eslint, and again after it if, and only if, eslint made another text of the
file. -/
inductive InOrder (host : Host) (tools : Tools) (path : Path) : List Run → Prop
  | mk {first check again : List Run}
    (begun : RanOnce (command? tools.prettier) [0] first)
    (checked : RanOnce (command? tools.eslint) [0, 1] check)
    (kept : (∀ run ∈ check, Run.KeepsText host path run) → again = [])
    (changed : (∃ run ∈ check, ¬ Run.KeepsText host path run) →
      RanOnce (command? tools.prettier) [0] again) :
    InOrder host tools path (first ++ (check ++ again))

theorem ranOnce_start {command : List String} {accepted : List Int}
    (ok : (start launch host tools path command accepted fs).result = .ok ()) :
    RanOnce (some command) accepted (start launch host tools path command accepted fs).runs := by
  obtain ⟨code, output, errors, came, mem⟩ := Run.finished_of_verdict ok
  exact ⟨_, code, output, errors, rfl, rfl, came, mem⟩

theorem ranOnce_startAny {command? : Option (List String)} {accepted : List Int}
    (ok : (startAny launch host tools path command? accepted fs).result = .ok ()) :
    RanOnce command? accepted (startAny launch host tools path command? accepted fs).runs := by
  cases command? with
  | none => rfl
  | some command => exact ranOnce_start ok

theorem readBack_ok {text : String} (ok : (readBack host path fs).result = .ok text) :
    fs.readText host.cwd path = .ok text := by
  rw [readBack] at ok
  cases read : fs.readText host.cwd path with
  | ok => simpa [read, Except.mapError] using ok
  | error => simp [read, Except.mapError] at ok

theorem tidy_ok {text : String} (ok : (tidy launch host tools path text fs).result = .ok ()) :
    let runs := (tidy launch host tools path text fs).runs
    (fs.readText host.cwd path = .ok text → runs = []) ∧
      (fs.readText host.cwd path ≠ .ok text → RanOnce (command? tools.prettier) [0] runs) := by
  rw [tidy] at ok ⊢
  cases prettier : command? tools.prettier with
  | none => exact ⟨fun _ => rfl, fun _ => rfl⟩
  | some command =>
    rw [prettier] at ok
    dsimp only at ok ⊢
    obtain ⟨now, read, ok, runs⟩ := History.bind_ok ok
    rw [runs, readBack_ok read]
    by_cases same : now = text
    · rw [if_pos same]
      exact ⟨fun _ => rfl, fun other => absurd (congrArg _ same) other⟩
    · rw [if_neg same] at ok ⊢
      exact ⟨fun read => absurd (Except.ok.inj read) same, fun _ => ranOnce_start ok⟩

theorem check_ok (ok : (check launch host tools path fs).result = .ok ()) :
    ∃ checked again, (check launch host tools path fs).runs = checked ++ again ∧
      RanOnce (command? tools.eslint) [0, 1] checked ∧
      ((∀ run ∈ checked, Run.KeepsText host path run) → again = []) ∧
      ((∃ run ∈ checked, ¬ Run.KeepsText host path run) →
        RanOnce (command? tools.prettier) [0] again) := by
  rw [check] at ok ⊢
  cases eslint : command? tools.eslint with
  | none => exact ⟨[], [], rfl, rfl, fun _ => rfl, fun ⟨_, mem, _⟩ => by cases mem⟩
  | some command =>
    rw [eslint] at ok
    dsimp only at ok ⊢
    obtain ⟨text, read, ok, runs⟩ := History.bind_ok ok
    have read := readBack_ok read
    obtain ⟨_, ran, ok, runs'⟩ := History.bind_ok ok
    rw [runs, runs']
    obtain ⟨kept, changed⟩ := tidy_ok ok
    -- The text before the run is the one that was read, so only the text after it is in question.
    refine ⟨_, _, List.nil_append _, ranOnce_start ran, fun keeps => kept ?_,
      fun ⟨run, mem, changes⟩ => changed fun same => changes ?_⟩
    · obtain ⟨text', before, after⟩ := keeps _ List.mem_cons_self
      obtain rfl : text = text' := Except.ok.inj (read.symm.trans before)
      exact after
    · obtain rfl := List.mem_singleton.mp mem
      exact ⟨text, read, same⟩

/-- A formatting that succeeds has run its tools in order. -/
theorem inOrder_of_ok (ok : (history launch host tools path fs).result = .ok ()) :
    InOrder host tools path (history launch host tools path fs).runs := by
  rw [history] at ok ⊢
  obtain ⟨_, fine, ok, runs⟩ := History.bind_ok ok
  obtain ⟨checked, again, runs', once, kept, changed⟩ := check_ok ok
  rw [runs, runs']
  exact .mk (ranOnce_startAny fine) once kept changed

end



/-- A tool that writes nothing and ends with an exit code that is no fault. -/
theorem start_silent {launch : Launcher} {host : Host} {tools : Tools} {path : Path}
    {command : List String} {accepted : List Int} {code : Int} {fs after : Files}
    (came : launch (command ++ [path.text]) (tools.workplace host) fs = .finished after code [] [])
    (mem : code ∈ accepted) :
    start launch host tools path command accepted fs =
      ⟨[⟨command, accepted, fs, .finished after code [] []⟩], after, .ok ()⟩ := by
  have silent : outputText [] = .ok [] := by
    simp [outputText, Text.decodeUtf8, Text.decodeUtf8At, Text.unifyNewlines]
  have fine : accepted.contains code = true := by simpa using mem
  simp only [start, came, Run.left, Run.verdict, Run.outcome, runTool, silent, bind, Except.bind,
    fine, if_true]
  rfl

/-- The account of a formatting is one of what it does. -/
theorem format_eq_history (launch : Launcher) (host : Host) (tools : Tools) (path : Path)
    (fs : Files) :
    format launch host tools path fs =
      ((history launch host tools path fs).files, (history launch host tools path fs).result) := by
  have ran (command : List String) (accepted : List Int) (fs : Files) :
      runTool launch command path (tools.directory.getD (.absolute host.cwd)) accepted fs =
        ((start launch host tools path command accepted fs).files,
          (start launch host tools path command accepted fs).result) := rfl
  rw [format, history]
  dsimp only [check, tidy, readBack, History.bind, History.done]
  simp only [ran]
  cases command? tools.prettier with
  | none =>
    cases command? tools.eslint with
    | none => rfl
    | some eslint =>
      dsimp only [startAny, History.done]
      cases fs.readText host.cwd path with
      | error unread => rfl
      | ok text =>
        dsimp only [Except.mapError]
        cases (start launch host tools path eslint [0, 1] fs).result <;> rfl
  | some prettier =>
    dsimp only [startAny]
    generalize start launch host tools path prettier [0] fs = begun
    obtain ⟨runs, fs, result⟩ := begun
    cases result with
    | error fault => rfl
    | ok =>
      dsimp only
      cases command? tools.eslint with
      | none => rfl
      | some eslint =>
        dsimp only
        cases fs.readText host.cwd path with
        | error unread => rfl
        | ok text =>
          dsimp only [Except.mapError]
          generalize start launch host tools path eslint [0, 1] fs = checked
          obtain ⟨runs, fs, result⟩ := checked
          cases result with
          | error fault => rfl
          | ok =>
            dsimp only
            cases fs.readText host.cwd path with
            | error unread => rfl
            | ok now =>
              dsimp only [Except.mapError]
              split <;> rfl

end ThemeSheet.Format
