import ThemeSheet.CommandLine.Run
import ThemeSheet.Proofs.CycleProtocol
import ThemeSheet.Proofs.SourcePath

/-! Watching a source: as long as a change of the file shows in its stamp or its size, none is
overlooked. -/

namespace ThemeSheet

/-! What becomes of one file in the course of a run. -/

namespace Files

/-- The bytes of a file, if there is one. -/
def bytes? (fs : Files) (cwd : List String) (path : Path) : Option (List UInt8) :=
  (fs.content cwd path).toOption

variable {cwd : List String} {path : Path}

/-- What is at a path looks the same from outside and is the same. -/
def SameAt (cwd : List String) (path : Path) (fs fs' : Files) : Prop :=
  fs'.snapshot? cwd path = fs.snapshot? cwd path ∧ fs'.bytes? cwd path = fs.bytes? cwd path

/-- States of files, the latest first, between which whatever is put at a path gets a stamp and a
size that were never seen there before. -/
def Tracked (cwd : List String) (path : Path) : List Files → Prop
  | [] => True
  | [_] => True
  | now :: before :: past =>
    (SameAt cwd path before now ∨ now.bytes? cwd path = none ∨
      ∀ fs ∈ before :: past, fs.snapshot? cwd path ≠ now.snapshot? cwd path) ∧
    Tracked cwd path (before :: past)

/-- Tracked states in none of which a link stands on the way to the path. -/
structure Watchable (cwd : List String) (path : Path) (states : List Files) : Prop where
  tracked : Tracked cwd path states
  unlinked : ∀ fs ∈ states, fs.Unlinked path.parts

theorem Watchable.past {now before : Files} {past : List Files}
    (h : Watchable cwd path (now :: before :: past)) : Watchable cwd path (before :: past) :=
  ⟨h.tracked.2, fun fs there => h.unlinked fs (List.mem_cons_of_mem now there)⟩

/-- Against a snapshot that was seen before, a new state is the same, without the file, or different. -/
theorem Watchable.changed {now before : Files} {past : List Files} {last : Option (Stamp × Nat)}
    (h : Watchable cwd path (now :: before :: past))
    (seen : ∃ fs ∈ before :: past, fs.snapshot? cwd path = last) :
    SameAt cwd path before now ∨ now.bytes? cwd path = none ∨ now.snapshot? cwd path ≠ last := by
  obtain ⟨fs, there, rfl⟩ := seen
  rcases h.tracked.1 with same | gone | other
  · exact .inl same
  · exact .inr (.inl gone)
  · exact .inr (.inr (other fs there).symm)

theorem bytes?_of_snapshot?_eq_none {fs : Files} (h : fs.snapshot? cwd path = none) :
    fs.bytes? cwd path = none := by
  rw [snapshot?, node?] at h
  rw [bytes?, content]
  cases there : fs.place true cwd path with
  | error => rfl
  | ok place =>
    obtain ⟨parts, node⟩ := place
    simp only [there] at h
    cases node with
    | none => rfl
    | some node => cases node <;> simp_all [Except.toOption]

end Files

namespace Engine

/-- What a cycle found in its source, which it reads before it does anything to the files. -/
def CycleRun.read (cwd : List String) (run : CycleRun) : Option (List UInt8) :=
  run.before.files.bytes? cwd run.before.config.source

def Incident.files (cwd : List String) : Incident → Files
  | edited files => files
  | ran run => (run.after cwd).files

namespace Recorded

/-- The states that the files went through, the latest first, back to one at the beginning. -/
def states (cwd : List String) (first : Files) (r : Recorded) : List Files :=
  (r.incidents.map (Incident.files cwd)).reverse ++ [first]

/-- The files that an engine works on are the latest. -/
def Current (cwd : List String) (first : Files) (r : Recorded) : Prop :=
  ∃ past, r.states cwd first = r.engine.files :: past

theorem states_concat (cwd : List String) (first : Files) (r : Recorded) (engine : Engine)
    (incident : Incident) : (Recorded.mk engine (r.incidents ++ [incident])).states cwd first =
      incident.files cwd :: r.states cwd first := by
  simp [states]

end Recorded

/-- Where the watching of a source begins: with the first files that are known of, with so many
cycles that have run since, and with what the source was found to hold. -/
structure Beginning where
  files : Files
  runs : Nat
  bytes : Option (List UInt8)

/-- What the last cycle found, or what was found at the beginning if none has run since. -/
def Beginning.lastRead (b : Beginning) (cwd : List String) (r : Recorded) : Option (List UInt8) :=
  ((r.runs.drop b.runs).getLast?.map (CycleRun.read cwd)).getD b.bytes

namespace Recorded

variable {cwd : List String} {b : Beginning} {watcher : Watcher} {r : Recorded}
  {world : Clock × Recorded}

/-- An engine works on the source that is watched, and the snapshot that the watcher has was taken of
some of the files that there were. -/
structure Placed (cwd : List String) (b : Beginning) (watcher : Watcher) (r : Recorded) : Prop where
  current : r.Current cwd b.files
  source : r.engine.config.source = watcher.path
  known : ∃ fs ∈ r.states cwd b.files, fs.snapshot? cwd watcher.path = watcher.last
  begun : b.runs ≤ r.runs.length

/-- A cycle is to come, the watcher has yet to see the file as it is, there is no file, or the file
is as it was last read. -/
def Accounted (cwd : List String) (b : Beginning) (watcher : Watcher) (r : Recorded) : Prop :=
  r.engine.pending = true ∨ r.engine.files.snapshot? cwd watcher.path ≠ watcher.last ∨
    r.engine.files.bytes? cwd watcher.path = none ∨
    b.lastRead cwd r = r.engine.files.bytes? cwd watcher.path

/-- Nothing is overlooked if the files allow it. -/
structure Guarded (cwd : List String) (b : Beginning) (watcher : Watcher) (r : Recorded) : Prop
    extends Placed cwd b watcher r where
  accounted : Files.Watchable cwd watcher.path (r.states cwd b.files) → Accounted cwd b watcher r

/-- Where nothing is to come and a look shows nothing new, the file is as it was last read. -/
theorem Accounted.quiet (h : Accounted cwd b watcher r) (idle : r.engine.pending = false)
    (silent : (watcher.poll r.engine.files cwd).2 = none) {bytes : List UInt8}
    (there : r.engine.files.bytes? cwd watcher.path = some bytes) :
    b.lastRead cwd r = some bytes := by
  have seen : watcher.last = r.engine.files.snapshot? cwd watcher.path := by
    by_contra other
    simp only [Watcher.poll, Watcher.eventBetween, if_neg other] at silent
    split at silent <;> cases silent
  rcases h with pending | differs | gone | read
  · rw [idle] at pending
    cases pending
  · exact absurd seen.symm differs
  · rw [gone] at there
    cases there
  · exact read.trans there

theorem Placed.debounce (h : Placed cwd b watcher r) (debouncer : Debouncer)
    (commands : List Command) (trace : List Occurrence) :
    Placed cwd b watcher { r with engine := { r.engine with
      controller := { r.engine.controller with debouncer, commands }, trace } } :=
  ⟨h.current, h.source, h.known, h.begun⟩

/-- Files change. Where that cannot be seen at the source, there must be a reason why nothing is
overlooked. -/
theorem Placed.next (h : Placed cwd b watcher r) {engine : Engine} {incident : Incident}
    (files : engine.files = incident.files cwd) (source : engine.config.source = watcher.path)
    (unseen : Files.Watchable cwd watcher.path (r.states cwd b.files) →
      Files.SameAt cwd watcher.path r.engine.files engine.files →
      Accounted cwd b watcher ⟨engine, r.incidents ++ [incident]⟩) :
    Guarded cwd b watcher ⟨engine, r.incidents ++ [incident]⟩ := by
  obtain ⟨past, states⟩ := h.current
  have known := h.known
  constructor
  · constructor
    · exact ⟨_, files ▸ states_concat ..⟩
    · exact source
    · obtain ⟨fs, there, seen⟩ := known
      rw [states_concat]
      exact ⟨fs, List.mem_cons_of_mem _ there, seen⟩
    · refine h.begun.trans ?_
      rw [runs, runs, List.filterMap_append, List.length_append]
      exact Nat.le_add_right _ _
  · intro watchable
    rw [states_concat, ← files, states] at watchable
    rw [states] at known unseen
    -- The watcher's snapshot was taken of a state before this one, so new content differs from it.
    rcases watchable.changed known with same | gone | new
    · exact unseen watchable.past same
    · exact .inr (.inr (.inl gone))
    · exact .inr (.inl new)

theorem Guarded.edit (h : Guarded cwd b watcher world.2) (change : Files → Files) :
    Guarded cwd b watcher (Recorded.edit change world).2 := by
  refine h.next rfl h.source fun watchable same => ?_
  have before := h.accounted watchable
  rw [Accounted, ← same.1, ← same.2] at before
  rw [Accounted, Beginning.lastRead, runs_edited]
  exact before

theorem lastRead_ran (h : b.runs ≤ r.runs.length) (cwd : List String) (engine : Engine)
    (run : CycleRun) :
    b.lastRead cwd ⟨engine, r.incidents ++ [.ran run]⟩ = run.read cwd := by
  rw [Beginning.lastRead, runs_ran, List.drop_append_of_le_length h, List.getLast?_append]
  rfl

/-- A cycle reads what is there, whatever it then does to it. -/
theorem Placed.cycle (h : Placed cwd b watcher world.2) (trigger : String) :
    Guarded cwd b watcher (Recorded.cycle cwd trigger world).2 := by
  obtain ⟨clock, r⟩ := world
  let run : CycleRun := ⟨r.engine, trigger⟩
  obtain ⟨-, config, -⟩ := regenerate_follows cwd trigger r.engine
  obtain ⟨debouncer, settled⟩ := settle_eq (clock, run.after cwd)
  change Guarded cwd b watcher ⟨(settle (clock, run.after cwd)).2, r.incidents ++ [.ran run]⟩
  rw [settled]
  refine h.next rfl ?_ fun _ same => ?_
  · exact (congrArg Config.source config).trans h.source
  · refine .inr (.inr (.inr ?_))
    rw [lastRead_ran h.begun]
    refine Eq.trans ?_ same.2.symm
    exact congrArg (r.engine.files.bytes? cwd) h.source

theorem Guarded.wake (h : Guarded cwd b watcher world.2) (number : Nat) :
    Guarded cwd b watcher (Recorded.wake cwd number world).2 := by
  rw [Recorded.wake]
  dsimp only
  split
  · exact h
  · refine Placed.cycle ?_ "change"
    exact h.debounce _ _ _

theorem Placed.schedule (h : Placed cwd b watcher world.2) :
    Guarded cwd b watcher (Recorded.aside Engine.schedule world).2 where
  toPlaced := h.debounce _ _ _
  accounted := fun _ => .inl rfl

theorem Guarded.perform (h : Guarded cwd b watcher world.2) {deed : Deed} (open_ : deed ≠ .close) :
    Guarded cwd b watcher (Recorded.perform cwd world deed).2 := by
  cases deed with
  | regenerate trigger => exact h.cycle trigger
  | notify event path =>
    rcases notify_eq cwd event path (plain world) with same | ⟨message, asked⟩
    · have unchanged : Recorded.perform cwd world (.notify event path) = world := by
        rw [Recorded.perform, aside, same]
        rfl
      rw [unchanged]
      exact h
    · have scheduled : Recorded.perform cwd world (.notify event path) =
          aside Engine.schedule
            (world.1, { world.2 with engine := world.2.engine.log .debug message }) := by
        rw [Recorded.perform, aside, asked]
        rfl
      rw [scheduled]
      refine Placed.schedule ?_
      exact h.debounce _ _ _
  | schedule => exact h.schedule
  | close => exact absurd rfl open_
  | advance seconds more =>
    exact Clock.advanceTo_keeps (Guarded cwd b watcher)
      (fun number clock r before => Guarded.wake before number) _ _ h
  | edit change => exact h.edit change

end Recorded
end Engine

namespace CommandLine.Watching

open Engine (Beginning CycleRun Deed Incident)

/-- What can happen while a source is watched. -/
inductive Move
  | poll
  | deed (deed : Deed)

def perform (w : Watching) : Move → Watching
  | .poll => w.poll
  | .deed deed =>
    let (clock, engine) := Engine.perform w.setting.cwd (w.clock, w.engine) deed
    { w with clock, engine }

/-- Whether the command has been ended. -/
def Move.closes : Move → Bool
  | deed .close => true
  | _ => false

/-- A source that is watched, with all that has happened to the files. -/
structure Observed where
  watching : Watching
  incidents : List Incident

namespace Observed

def recorded (o : Observed) : Engine.Recorded :=
  ⟨o.watching.engine, o.incidents⟩

def perform (o : Observed) : Move → Observed
  | .poll => { o with watching := o.watching.poll }
  | .deed deed =>
    let w := o.watching
    let (clock, r) := Engine.Recorded.perform w.setting.cwd (w.clock, o.recorded) deed
    ⟨{ w with clock, engine := r.engine }, r.incidents⟩

/-- Keeping a history changes nothing. -/
theorem watching_perform (o : Observed) (move : Move) :
    (o.perform move).watching = o.watching.perform move := by
  cases move with
  | poll => rfl
  | deed deed =>
    have same := Engine.Recorded.plain_perform o.watching.setting.cwd
      (o.watching.clock, o.recorded) deed
    exact congrArg (fun world : Clock × Engine =>
      { o.watching with clock := world.1, engine := world.2 }) same

theorem watching_foldl_perform (o : Observed) (moves : List Move) :
    (moves.foldl perform o).watching = moves.foldl Watching.perform o.watching := by
  induction moves generalizing o with
  | nil => rfl
  | cons move rest ih => rw [List.foldl_cons, List.foldl_cons, ih, watching_perform]

end Observed

/-- The watcher after a look. -/
def look (w : Watching) : Watcher :=
  { w.watcher with last := w.engine.files.snapshot? w.setting.cwd w.watcher.path }

/-- A look changes the watcher, the log and what is pending, which it does not drop. -/
theorem poll_eq (w : Watching) : ∃ clock debouncer trace,
    w.poll = { w with
      clock
      watcher := w.look
      engine := { w.engine with
        controller := { w.engine.controller with debouncer }, trace } } ∧
    (w.engine.pending = true → debouncer.pending.isSome = true) := by
  rw [poll]
  dsimp only [Watcher.poll]
  split
  · exact ⟨w.clock, w.engine.controller.debouncer, w.engine.trace, rfl, id⟩
  · split
    · exact ⟨w.clock, w.engine.controller.debouncer, _, rfl, id⟩
    · rename_i handled
      rcases Engine.handleEvent_ok handled with same | ⟨message, scheduled⟩
      · cases same
        exact ⟨w.clock, w.engine.controller.debouncer, w.engine.trace, rfl, id⟩
      · cases scheduled
        exact ⟨_, _, _, rfl, fun _ => rfl⟩

/-- The command keeps its setting and its path. -/
theorem perform_fixed (w : Watching) (move : Move) :
    (w.perform move).setting = w.setting ∧ (w.perform move).watcher.path = w.watcher.path := by
  cases move with
  | poll =>
    obtain ⟨clock, debouncer, trace, polled, -⟩ := poll_eq w
    rw [perform, polled]
    exact ⟨rfl, rfl⟩
  | deed deed => exact ⟨rfl, rfl⟩

theorem foldl_perform_fixed (w : Watching) (moves : List Move) :
    (moves.foldl perform w).setting = w.setting ∧
      (moves.foldl perform w).watcher.path = w.watcher.path := by
  induction moves generalizing w with
  | nil => exact ⟨rfl, rfl⟩
  | cons move rest ih =>
    obtain ⟨setting, path⟩ := perform_fixed w move
    obtain ⟨setting', path'⟩ := ih (w.perform move)
    exact ⟨setting'.trans setting, path'.trans path⟩

/-- An event of a file to whose path no link leads asks for a cycle. -/
theorem handleEvent_of_unlinked {e : Engine} {path : Path} {event : String} (cwd : List String)
    (clock : Clock) (proper : path.Proper) (unlinked : e.files.Unlinked path.parts)
    (source : e.config.source = path) (watched : event ∈ Engine.watchedEvents) :
    ∃ message, Engine.handleEvent cwd event path.text (clock, e) =
      .ok (Engine.schedule (clock, e.log .debug message), true) := by
  have there : Engine.watchedEvents.contains event = true := by simpa using watched
  rw [Engine.handleEvent, if_pos there, Path.ofString_text proper, Files.resolve_of_unlinked proper unlinked,
    Except.map, if_pos source.symm]
  exact ⟨_, rfl⟩

/-- A look at a file that has changed asks for a cycle. -/
theorem pending_of_poll {w : Watching} {found : Stamp × Nat} (proper : w.watcher.path.Proper)
    (unlinked : w.engine.files.Unlinked w.watcher.path.parts)
    (source : w.engine.config.source = w.watcher.path)
    (there : w.engine.files.snapshot? w.setting.cwd w.watcher.path = some found)
    (changed : w.watcher.last ≠ some found) : w.poll.engine.pending = true := by
  obtain ⟨event, between, watched⟩ : ∃ event, Watcher.eventBetween w.watcher.last (some found) =
      some event ∧ event.name ∈ Engine.watchedEvents := by
    cases last : w.watcher.last with
    | none => exact ⟨.add, rfl, by decide⟩
    | some before =>
      have other : before ≠ found := fun same => changed (last.trans (congrArg some same))
      exact ⟨.change, by simp [Watcher.eventBetween, other], by decide⟩
  obtain ⟨message, asked⟩ :=
    handleEvent_of_unlinked w.setting.cwd w.clock proper unlinked source watched
  rw [poll]
  dsimp only [Watcher.poll]
  rw [there, between]
  dsimp only
  rw [asked]
  rfl

namespace Observed

variable {b : Beginning} {o : Observed}

/-- All that is known of a source that is watched. -/
structure Guarded (b : Beginning) (o : Observed) : Prop extends
    o.recorded.Guarded o.watching.setting.cwd b o.watching.watcher where
  proper : o.watching.watcher.path.Proper

/-- After a look nothing is overlooked: what it has seen for the first time it has asked a cycle for,
and of what it had seen before the rest is known. -/
theorem Guarded.poll (h : Guarded b o) : Guarded b (o.perform .poll) := by
  obtain ⟨w, incidents⟩ := o
  obtain ⟨past, states⟩ := h.current
  obtain ⟨clock, debouncer, trace, polled, still⟩ := poll_eq w
  have asks {found : Stamp × Nat} (unlinked : w.engine.files.Unlinked w.watcher.path.parts)
      (there : w.engine.files.snapshot? w.setting.cwd w.watcher.path = some found)
      (changed : w.watcher.last ≠ some found) : debouncer.pending.isSome = true := by
    have pending := pending_of_poll h.proper unlinked h.source there changed
    rw [polled] at pending
    exact pending
  change Guarded b ⟨w.poll, incidents⟩
  rw [polled]
  refine ⟨⟨⟨h.current, h.source, ?_, h.begun⟩, fun watchable => ?_⟩, h.proper⟩
  · exact ⟨w.engine.files, states ▸ List.mem_cons_self, rfl⟩
  · -- A look that shows what was known leaves all as it was; any other is an event or no file.
    by_cases same : w.engine.files.snapshot? w.setting.cwd w.watcher.path = w.watcher.last
    · rcases h.accounted watchable with pending | differs | gone | read
      · exact .inl (still pending)
      · exact absurd same differs
      · exact .inr (.inr (.inl gone))
      · exact .inr (.inr (.inr read))
    · cases there : w.engine.files.snapshot? w.setting.cwd w.watcher.path with
      | none => exact .inr (.inr (.inl (Files.bytes?_of_snapshot?_eq_none there)))
      | some found =>
        have unlinked := watchable.unlinked w.engine.files (states ▸ List.mem_cons_self)
        exact .inl (asks unlinked there fun known => same (there.trans known.symm))

theorem Guarded.perform (h : Guarded b o) {move : Move} (open_ : move.closes = false) :
    Guarded b (o.perform move) := by
  cases move with
  | poll => exact h.poll
  | deed deed =>
    have other : deed ≠ .close := by
      rintro rfl
      cases open_
    exact ⟨Engine.Recorded.Guarded.perform h.toGuarded other, h.proper⟩

theorem Guarded.foldl_perform (h : Guarded b o) {moves : List Move}
    (open_ : ∀ move ∈ moves, move.closes = false) : Guarded b (moves.foldl Observed.perform o) := by
  induction moves generalizing o with
  | nil => exact h
  | cons move rest ih =>
    simp only [List.mem_cons, or_imp, forall_and, forall_eq] at open_
    exact ih (h.perform open_.1) open_.2

/-- What a run of moves comes to for a source that is guarded at its beginning. -/
theorem Guarded.run (h : Guarded b o) {moves : List Move}
    (open_ : ∀ move ∈ moves, move.closes = false)
    (watchable : Files.Watchable o.watching.setting.cwd o.watching.watcher.path
      ((moves.foldl Observed.perform o).recorded.states o.watching.setting.cwd b.files)) :
    let cwd := o.watching.setting.cwd
    let path := o.watching.watcher.path
    let later := moves.foldl Observed.perform o
    let now := moves.foldl Watching.perform o.watching
    let files := now.engine.files
    later.watching = now ∧
      (now.engine.pending = true ∨ files.snapshot? cwd path ≠ now.watcher.last ∨
        files.bytes? cwd path = none ∨ b.lastRead cwd later.recorded = files.bytes? cwd path) ∧
      (now.engine.pending = false → (now.watcher.poll files cwd).2 = none →
        ∀ bytes, files.bytes? cwd path = some bytes →
          b.lastRead cwd later.recorded = some bytes) := by
  intro cwd path later now files
  have watching : later.watching = now := watching_foldl_perform o moves
  have engine : later.recorded.engine = now.engine := congrArg Watching.engine watching
  obtain ⟨setting, path_eq⟩ : now.setting = o.watching.setting ∧ now.watcher.path = path :=
    foldl_perform_fixed o.watching moves
  have accounted := (h.foldl_perform open_).accounted
  rw [watching, setting, path_eq] at accounted
  have accounted := accounted watchable
  refine ⟨watching, ?_, fun idle silent bytes there => ?_⟩
  · rw [Engine.Recorded.Accounted, engine, path_eq] at accounted
    exact accounted
  · have quiet := accounted.quiet
    rw [engine, path_eq] at quiet
    exact quiet idle silent there

end Observed

/-- The watching of a source from a moment on, with its history. -/
def record (w : Watching) (moves : List Move) : Observed :=
  moves.foldl Observed.perform ⟨w, [.edited w.engine.files]⟩

end CommandLine.Watching
end ThemeSheet
