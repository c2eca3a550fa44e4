import Mathlib.Algebra.Field.Rat
import ThemeSheet.Proofs.DebounceHistory
import ThemeSheet.Proofs.Timers

/-! What a debouncer does over any order of steps: one timer at most is live, and the callback runs
once for each trigger that is still the last one when its time has come. -/

namespace ThemeSheet.Debounced

variable {σ : Type}

/-- What can be done with a debouncer from outside. -/
inductive Step
  | trigger
  | cancel
  | advance (seconds : NNRat)
  /-- A timer wakes although it was cancelled or replaced. -/
  | stale (number : Nat)
deriving DecidableEq

def Step.isStale : Step → Bool
  | stale _ => true
  | _ => false

/-- Wakes a timer that was cancelled and has not run, if there is one of this number. -/
def wakeCancelled (callback : Callback σ) (number : Nat) (world : Clock × Debounced σ) :
    Clock × Debounced σ :=
  if (world.1.timers[number]?).any (fun timer => timer.cancelled && !timer.ran) then
    wake callback number (world.1.markRan number, world.2)
  else world

def perform (callback : Callback σ) (world : Clock × Debounced σ) : Step → Clock × Debounced σ
  | .trigger => trigger world
  | .cancel => cancel world
  | .advance seconds => advance callback seconds world
  | .stale number => wakeCancelled callback number world

/-- The wake-up of the last timer that was cancelled is one of those that may come at any time. -/
theorem wakeStale_eq (callback : Callback σ) (world : Clock × Debounced σ) :
    (wakeStale callback world).1 = world ∨
      ∃ number, (wakeStale callback world).1 = perform callback world (.stale number) := by
  rw [wakeStale]
  cases last : world.1.lastStale? with
  | none => exact .inl rfl
  | some number =>
    refine .inr ⟨number, ?_⟩
    have there := (List.mem_filter.mp (List.mem_of_getLast? last)).2
    rw [perform, wakeCancelled, if_pos]
    cases found : world.1.timers[number]? with
    | none => simp [found] at there
    | some timer => simpa [found] using there

/-- A debouncer that has done nothing yet. -/
def initial (delay : Rat) (state : σ) : Clock × Debounced σ :=
  (.initial, ⟨.make delay, state, []⟩)

/-! The history of a run. -/

/-- A debouncer at work, with all that has happened to it. -/
structure Recorded (σ : Type) where
  debounced : Debounced σ
  moments : List Moment

namespace Recorded

/-- The debouncer without its history. -/
def plain (world : Clock × Recorded σ) : Clock × Debounced σ :=
  Prod.map id debounced world

def note (what : Happening) (world : Clock × Recorded σ) : Clock × Recorded σ :=
  let (clock, r) := world
  let moment : Moment := ⟨what, clock.now, clock.live, r.debounced.debouncer.pending.isSome⟩
  (clock, { r with moments := r.moments ++ [moment] })

def trigger (world : Clock × Recorded σ) : Clock × Recorded σ :=
  let (clock, debounced) := Debounced.trigger (plain world)
  note (.asked world.1.timers.length) (clock, { world.2 with debounced })

def cancel (world : Clock × Recorded σ) : Clock × Recorded σ :=
  let (clock, debounced) := Debounced.cancel (plain world)
  note .dropped (clock, { world.2 with debounced })

def obey (world : Clock × Recorded σ) : Command → Clock × Recorded σ
  | .trigger => trigger world
  | .cancel => cancel world

/-- The callback has begun to run. -/
def begin (number : Nat) (debouncer : Debouncer) (state : σ) (world : Clock × Recorded σ) :
    Clock × Recorded σ :=
  note (.ran number) (world.1, { world.2 with
    debounced := { world.2.debounced with debouncer, state } })

def logFailure (failed : Bool) (world : Clock × Recorded σ) : Clock × Recorded σ :=
  let d := world.2.debounced
  (world.1, { world.2 with
    debounced := { d with logs := d.logs ++ if failed then [failureNote] else [] } })

def wake (callback : Callback σ) (number : Nat) (world : Clock × Recorded σ) :
    Clock × Recorded σ :=
  match world.2.debounced.debouncer.wake? number with
  | none => world
  | some debouncer =>
    let reply := callback.run world.2.debounced.state
    logFailure reply.failed
      (reply.commands.foldl obey (begin number debouncer reply.state world))

def moveTo (time : Rat) (world : Clock × Recorded σ) : Clock × Recorded σ :=
  note .moved ({ world.1 with now := time }, world.2)

/-- The clock has come to the time at which a timer is due, and the timer wakes. -/
def reach (callback : Callback σ) (number : Nat) (world : Clock × Recorded σ) :
    Clock × Recorded σ :=
  let (clock, r) := moveTo (world.1.wakeAt number).now world
  wake callback number (clock.markRan number, r)

def advanceTo (callback : Callback σ) (target : Rat) :
    (fuel : Nat) → Clock × Recorded σ → Clock × Recorded σ
  | 0, world => moveTo target world
  | fuel + 1, world =>
    match world.1.next? target with
    | none => moveTo target world
    | some number => advanceTo callback target fuel (reach callback number world)

def wakeCancelled (callback : Callback σ) (number : Nat) (world : Clock × Recorded σ) :
    Clock × Recorded σ :=
  if (world.1.timers[number]?).any (fun timer => timer.cancelled && !timer.ran) then
    wake callback number (world.1.markRan number, world.2)
  else world

def perform (callback : Callback σ) (world : Clock × Recorded σ) : Step → Clock × Recorded σ
  | .trigger => trigger world
  | .cancel => cancel world
  | .advance seconds =>
    advanceTo callback (world.1.now + seconds)
      (world.1.live + callback.remaining world.2.debounced.state) world
  | .stale number => wakeCancelled callback number world

def initial (delay : Rat) (state : σ) : Clock × Recorded σ :=
  (.initial, ⟨⟨.make delay, state, []⟩, []⟩)

/-- All that happens to a new debouncer in a run. -/
def run (callback : Callback σ) (delay : Rat) (state : σ) (steps : List Step) :
    Clock × Recorded σ :=
  steps.foldl (perform callback) (initial delay state)

/-! Keeping a history changes nothing. -/

theorem plain_obey (world : Clock × Recorded σ) (command : Command) :
    plain (obey world command) = Debounced.obey (plain world) command := by
  cases command <;> rfl

theorem plain_foldl_obey (world : Clock × Recorded σ) (commands : List Command) :
    plain (commands.foldl obey world) = commands.foldl Debounced.obey (plain world) := by
  induction commands generalizing world with
  | nil => rfl
  | cons command rest ih => rw [List.foldl_cons, List.foldl_cons, ih, plain_obey]

theorem plain_wake (callback : Callback σ) (number : Nat) (world : Clock × Recorded σ) :
    plain (wake callback number world) = Debounced.wake callback number (plain world) := by
  obtain ⟨clock, d, moments⟩ := world
  rw [wake, Debounced.wake]
  change plain (match d.debouncer.wake? number with | none => _ | some debouncer => _) =
    match d.debouncer.wake? number with | none => _ | some debouncer => _
  cases d.debouncer.wake? number with
  | none => rfl
  | some debouncer =>
    have same := plain_foldl_obey
      (begin number debouncer (callback.run d.state).state (clock, ⟨d, moments⟩))
      (callback.run d.state).commands
    exact congrArg (fun world : Clock × Debounced σ => (world.1, { world.2 with
      logs := world.2.logs ++ if (callback.run d.state).failed then [failureNote] else [] })) same

theorem plain_advanceTo (callback : Callback σ) (target : Rat) (fuel : Nat)
    (world : Clock × Recorded σ) : plain (advanceTo callback target fuel world) =
      Clock.advanceTo (Debounced.wake callback) target fuel (plain world) := by
  induction fuel generalizing world with
  | zero => rfl
  | succ fuel ih =>
    rw [advanceTo, plain, Prod.map, Clock.advanceTo]
    change plain _ = match world.1.next? target with | none => _ | some number => _
    cases world.1.next? target with
    | none => rfl
    | some number =>
      rw [ih, reach, plain_wake]
      rfl

theorem plain_perform (callback : Callback σ) (world : Clock × Recorded σ) (step : Step) :
    plain (perform callback world step) = Debounced.perform callback (plain world) step := by
  cases step with
  | trigger => rfl
  | cancel => rfl
  | advance seconds => exact plain_advanceTo ..
  | stale number =>
    rw [perform, wakeCancelled, Debounced.perform, Debounced.wakeCancelled]
    change _ = if (world.1.timers[number]?).any _ then _ else _
    split
    · exact plain_wake ..
    · rfl

theorem plain_run (callback : Callback σ) (delay : Rat) (state : σ) (steps : List Step) :
    plain (run callback delay state steps) =
      steps.foldl (Debounced.perform callback) (Debounced.initial delay state) := by
  rw [run]
  change _ = steps.foldl (Debounced.perform callback) (plain (initial delay state))
  generalize initial delay state = world
  induction steps generalizing world with
  | nil => rfl
  | cons step rest ih => rw [List.foldl_cons, List.foldl_cons, ih, plain_perform]

end Recorded

/-! The history of a run is one that there can be. -/

namespace Recorded

/-- What is known of a debouncer at work: its history can be and leads to the time of the clock, and
the run that is waited for is the one of the live timer. -/
structure Traced (delay : Rat) (world : Clock × Recorded σ) (waiting : Option (Nat × Rat)) :
    Prop where
  unfolds : Unfolds delay world.2.moments world.1.now world.1.timers.length waiting
  delay_eq : world.2.debounced.debouncer.delay = delay
  pending : world.2.debounced.debouncer.pending = waiting.map (·.1)
  awaits : world.1.Awaits (waiting.map (·.1))
  ahead : ∀ number due, waiting = some (number, due) →
    world.1.outlook[number]? = some (due, true) ∧ world.1.now ≤ due

theorem note_eq {clock : Clock} {r : Recorded σ} (waiting : Option (Nat × Rat))
    (pending : r.debounced.debouncer.pending = waiting.map (·.1))
    (awaits : clock.Awaits (waiting.map (·.1))) (what : Happening) :
    note what (clock, r) =
      (clock, { r with moments := r.moments ++ [.of what clock.now waiting] }) := by
  rw [note, pending, awaits.live]
  cases waiting <;> rfl

theorem traced_initial (delay : Rat) (state : σ) : Traced delay (initial delay state) none where
  unfolds := .start 0
  delay_eq := rfl
  pending := rfl
  awaits := fun number => by simp [initial, Clock.initial, Clock.outlook]
  ahead := by simp

variable {delay : Rat} {world : Clock × Recorded σ} {waiting : Option (Nat × Rat)}

theorem Traced.cancelPending (h : Traced delay world waiting) :
    let clock := world.2.debounced.debouncer.cancelPending world.1
    clock.Awaits none ∧ clock.timers.length = world.1.timers.length ∧ clock.now = world.1.now := by
  have awaits := h.awaits
  rw [Debouncer.cancelPending, h.pending]
  cases waiting with
  | none => exact ⟨awaits, rfl, rfl⟩
  | some run =>
    refine ⟨awaits.none_of_stopped (Clock.outlook_cancel ..), ?_, rfl⟩
    rw [← Clock.length_outlook, Option.map_some, Clock.outlook_cancel, List.length_modify,
      Clock.length_outlook]

theorem Traced.trigger (h : Traced delay world waiting) (nonneg : 0 ≤ delay) :
    Traced delay (trigger world) (some (world.1.timers.length, world.1.now + delay)) := by
  obtain ⟨clock, d, moments⟩ := world
  obtain ⟨stopped, length, now⟩ := h.cancelPending
  have delay_eq : d.debouncer.delay = delay := h.delay_eq
  have awaits := stopped.start delay
  rw [length] at awaits
  simp only [Recorded.trigger, plain, Prod.map, id, Debounced.trigger, Debouncer.trigger, delay_eq,
    length]
  rw [note_eq (some (clock.timers.length, clock.now + delay)) rfl awaits]
  constructor
  · simpa [Clock.start, length, now] using h.unfolds.ask
  · rfl
  · rfl
  · exact awaits
  · rintro number due ⟨⟩
    refine ⟨?_, ?_⟩
    · rw [Clock.outlook_start, now, ← length, ← Clock.length_outlook]
      exact List.getElem?_concat_length
    · change (d.debouncer.cancelPending clock).now ≤ _
      rw [now]
      exact le_add_of_nonneg_right nonneg

theorem Traced.cancel (h : Traced delay world waiting) : Traced delay (cancel world) none := by
  obtain ⟨clock, d, moments⟩ := world
  obtain ⟨stopped, length, now⟩ := h.cancelPending
  simp only [Recorded.cancel, plain, Prod.map, id, Debounced.cancel, Debouncer.cancel]
  rw [note_eq none rfl stopped]
  constructor
  · simpa [length, now] using h.unfolds.drop
  · exact h.delay_eq
  · rfl
  · exact stopped
  · simp

theorem foldl_obey_keeps (world : Clock × Recorded σ) (commands : List Command) :
    (commands.foldl obey world).1.now = world.1.now ∧
      (commands.foldl obey world).2.debounced.state = world.2.debounced.state := by
  induction commands generalizing world with
  | nil => exact ⟨rfl, rfl⟩
  | cons command rest ih =>
    obtain ⟨now, state⟩ := ih (obey world command)
    rw [List.foldl_cons, now, state]
    have still : (world.2.debounced.debouncer.cancelPending world.1).now = world.1.now := by
      rw [Debouncer.cancelPending]
      split <;> rfl
    cases command with
    | trigger => exact ⟨still, rfl⟩
    | cancel => exact ⟨still, rfl⟩

/-- A callback that leaves a run waiting has asked for one. -/
theorem Traced.foldl_obey (h : Traced delay world waiting) (nonneg : 0 ≤ delay)
    (commands : List Command) : ∃ waiting', Traced delay (commands.foldl obey world) waiting' ∧
      (waiting = none → waiting' ≠ none → 0 < commands.count .trigger) := by
  induction commands generalizing world waiting with
  | nil => exact ⟨waiting, h, fun none some => absurd none some⟩
  | cons command rest ih =>
    cases command with
    | trigger =>
      obtain ⟨waiting', traced, -⟩ := ih (h.trigger nonneg)
      exact ⟨waiting', traced, fun _ _ => by simp⟩
    | cancel =>
      obtain ⟨waiting', traced, asked⟩ := ih h.cancel
      exact ⟨waiting', traced, fun _ some => by simpa using asked rfl some⟩

theorem Traced.logFailure (h : Traced delay world waiting) (failed : Bool) :
    Traced delay (logFailure failed world) waiting :=
  ⟨h.unfolds, h.delay_eq, h.pending, h.awaits, h.ahead⟩

/-- The clock moves on to a time before the run that is waited for. -/
theorem Traced.moveTo (h : Traced delay world waiting) {time : Rat} (later : world.1.now ≤ time)
    (early : ∀ number due, waiting = some (number, due) → time < due) :
    Traced delay (moveTo time world) waiting := by
  obtain ⟨clock, r⟩ := world
  change Traced delay (note .moved ({ clock with now := time }, r)) waiting
  have awaits : ({ clock with now := time } : Clock).Awaits (waiting.map (·.1)) := h.awaits
  rw [note_eq waiting h.pending awaits]
  constructor
  · exact h.unfolds.move time later early
  · exact h.delay_eq
  · exact h.pending
  · exact h.awaits
  · exact fun number due waits => ⟨(h.ahead number due waits).1, (early number due waits).le⟩

theorem wake_of_waiting (callback : Callback σ) {number : Nat} {debouncer : Debouncer}
    (h : world.2.debounced.debouncer.wake? number = some debouncer) :
    let reply := callback.run world.2.debounced.state
    wake callback number world = Recorded.logFailure reply.failed
      (reply.commands.foldl obey (Recorded.begin number debouncer reply.state world)) := by
  simp only [wake, h]

theorem wake_of_other (callback : Callback σ) {number : Nat}
    (h : world.2.debounced.debouncer.wake? number = none) : wake callback number world = world := by
  simp only [wake, h]

/-- The timer that is waited for has woken, and the callback begins to run. -/
theorem Traced.begin {number : Nat} {due : Rat} (h : Traced delay world (some (number, due)))
    (state : σ) : Traced delay (begin number { world.2.debounced.debouncer with pending := none } state
      (let (clock, r) := Recorded.moveTo due world; (clock.markRan number, r))) none := by
  obtain ⟨clock, r⟩ := world
  have later := (h.ahead number due rfl).2
  have stopped : (({ clock with now := due } : Clock).markRan number).Awaits none :=
    h.awaits.none_of_stopped (Clock.outlook_markRan ..)
  have length : (clock.markRan number).timers.length = clock.timers.length := by
    rw [← Clock.length_outlook, Clock.outlook_markRan, List.length_modify, Clock.length_outlook]
  have awaits : ({ clock with now := due } : Clock).Awaits (some number) := h.awaits
  have moved : Recorded.moveTo due (clock, r) = ({ clock with now := due },
      { r with moments := r.moments ++ [.of .moved due (some (number, due))] }) :=
    note_eq (some (number, due)) h.pending awaits .moved
  rw [moved, Recorded.begin, note_eq none rfl stopped]
  constructor
  · have fired := h.unfolds.fire later
    rw [← length] at fired
    rw [List.append_assoc]
    exact fired
  · exact h.delay_eq
  · rfl
  · exact stopped
  · simp

/-- The timer that is waited for wakes when it is due. -/
theorem Traced.reach {number : Nat} {due : Rat} (h : Traced delay world (some (number, due)))
    (nonneg : 0 ≤ delay) (callback : Callback σ) :
    ∃ waiting', Traced delay (reach callback number world) waiting' ∧
      (reach callback number world).1.now = due ∧
      (reach callback number world).1.live +
        callback.remaining (reach callback number world).2.debounced.state ≤
      callback.remaining world.2.debounced.state := by
  let reply := callback.run world.2.debounced.state
  let begun := Recorded.begin number { world.2.debounced.debouncer with pending := none } reply.state
    (let (clock, r) := Recorded.moveTo due world; (clock.markRan number, r))
  have woken : Recorded.reach callback number world =
      Recorded.logFailure reply.failed (reply.commands.foldl obey begun) := by
    have time : (world.1.wakeAt number).now = due := by
      rw [Clock.wakeAt_now, (h.ahead number due rfl).1]
      rfl
    have waits : world.2.debounced.debouncer.wake? number =
        some { world.2.debounced.debouncer with pending := none } :=
      if_pos h.pending
    rw [Recorded.reach, time]
    exact wake_of_waiting callback waits
  obtain ⟨waiting', traced, asked⟩ := (h.begin reply.state).foldl_obey nonneg reply.commands
  obtain ⟨now, state⟩ := foldl_obey_keeps begun reply.commands
  rw [woken]
  refine ⟨waiting', traced.logFailure _, now, ?_⟩
  have live : (reply.commands.foldl obey begun).1.live ≤ reply.triggers := by
    rw [traced.awaits.live]
    cases waiting' with
    | none => simp
    | some run => exact asked rfl (by simp)
  have bound : reply.triggers + callback.remaining reply.state ≤ _ :=
    callback.remaining_run world.2.debounced.state
  have left : callback.remaining (reply.commands.foldl obey begun).2.debounced.state =
      callback.remaining reply.state := congrArg _ state
  change (reply.commands.foldl obey begun).1.live +
    callback.remaining (reply.commands.foldl obey begun).2.debounced.state ≤ _
  omega

theorem Traced.advanceTo (h : Traced delay world waiting) (nonneg : 0 ≤ delay)
    (callback : Callback σ) {target : Rat} (later : world.1.now ≤ target) {fuel : Nat}
    (enough : world.1.live + callback.remaining world.2.debounced.state ≤ fuel) :
    ∃ waiting', Traced delay (advanceTo callback target fuel world) waiting' := by
  -- What a wake-up takes from the timers and from the triggers to come it takes from the fuel, so
  -- that no timer is left when there is none.
  induction fuel generalizing world waiting with
  | zero =>
    refine ⟨waiting, h.moveTo later fun number due waits => ?_⟩
    have := h.awaits.live
    simp [waits] at this
    omega
  | succ fuel ih =>
    rw [Recorded.advanceTo]
    cases next : world.1.next? target with
    | none =>
      refine ⟨waiting, h.moveTo later fun number due waits => ?_⟩
      exact Clock.of_next?_eq_none next (h.ahead number due waits).1
    | some number =>
      obtain ⟨due, live, soon⟩ := Clock.of_next?_eq_some next
      obtain ⟨⟨_, time⟩, rfl, rfl⟩ : ∃ run, waiting = some run ∧ run.1 = number := by
        simpa using (h.awaits number).mp ⟨due, live⟩
      obtain ⟨found, -⟩ := h.ahead _ _ rfl
      rw [found] at live
      cases live
      obtain ⟨waiting', traced, now, left⟩ := h.reach nonneg callback
      refine ih traced (now ▸ soon) (left.trans ?_)
      have := h.awaits.live
      simp at this
      omega

/-- A timer that was cancelled and wakes nevertheless is not the one that is waited for. -/
theorem Traced.wakeCancelled (h : Traced delay world waiting) (callback : Callback σ)
    (number : Nat) : (wakeCancelled callback number world).2 = world.2 ∧
      (wakeCancelled callback number world).1.now = world.1.now ∧
      (wakeCancelled callback number world).1.outlook = world.1.outlook := by
  rw [Recorded.wakeCancelled]
  split
  · rename_i cancelled
    have dead (due : Rat) : world.1.outlook[number]? ≠ some (due, true) := by
      rw [Clock.outlook, List.getElem?_map]
      cases found : world.1.timers[number]? with
      | none => simp
      | some timer => simp_all [Timer.isLive]
    have other : world.2.debounced.debouncer.pending ≠ some number := by
      intro waits
      obtain ⟨due, live⟩ := (h.awaits number).mpr (h.pending ▸ waits)
      exact dead due live
    have ignored : wake callback number (world.1.markRan number, world.2) =
        (world.1.markRan number, world.2) := wake_of_other callback (if_neg other)
    rw [ignored, Clock.outlook_markRan, Clock.modify_stopped_eq dead]
    exact ⟨rfl, rfl, rfl⟩
  · exact ⟨rfl, rfl, rfl⟩

theorem Traced.perform (h : Traced delay world waiting) (nonneg : 0 ≤ delay)
    (callback : Callback σ) (step : Step) :
    ∃ waiting', Traced delay (perform callback world step) waiting' := by
  cases step with
  | trigger => exact ⟨_, h.trigger nonneg⟩
  | cancel => exact ⟨none, h.cancel⟩
  | advance seconds =>
    exact h.advanceTo nonneg callback (le_add_of_nonneg_right seconds.2) (le_refl _)
  | stale number =>
    obtain ⟨same, now, outlook⟩ := h.wakeCancelled callback number
    refine ⟨waiting, ?_⟩
    change Traced delay (Recorded.wakeCancelled callback number world) waiting
    have length := congrArg List.length outlook
    simp only [Clock.length_outlook] at length
    constructor
    · rw [same, now, length]
      exact h.unfolds
    · rw [same]
      exact h.delay_eq
    · rw [same]
      exact h.pending
    · rw [Clock.Awaits, outlook]
      exact h.awaits
    · rw [outlook, now]
      exact h.ahead

theorem traced_run (nonneg : 0 ≤ delay) (callback : Callback σ) (state : σ) (steps : List Step) :
    ∃ waiting, Traced delay (run callback delay state steps) waiting := by
  have keeps {world : Clock × Recorded σ} (before : ∃ waiting, Traced delay world waiting) :
      ∃ waiting, Traced delay (steps.foldl (perform callback) world) waiting := by
    induction steps generalizing world with
    | nil => exact before
    | cons step rest ih =>
      obtain ⟨waiting, traced⟩ := before
      exact ih (traced.perform nonneg callback step)
  exact keeps ⟨none, traced_initial delay state⟩

/-! Runs that differ in what does not matter. -/

/-- The same but for the log, and for timers that are not to wake. -/
structure Alike (world world' : Clock × Recorded σ) : Prop where
  now : world.1.now = world'.1.now
  outlook : world.1.outlook = world'.1.outlook
  moments : world.2.moments = world'.2.moments
  debouncer : world.2.debounced.debouncer = world'.2.debounced.debouncer
  state : world.2.debounced.state = world'.2.debounced.state

variable {world' : Clock × Recorded σ} {callback callback' : Callback σ}

theorem Alike.symm (h : Alike world world') : Alike world' world :=
  ⟨h.now.symm, h.outlook.symm, h.moments.symm, h.debouncer.symm, h.state.symm⟩

theorem Alike.trans {world'' : Clock × Recorded σ} (h : Alike world world')
    (h' : Alike world' world'') : Alike world world'' :=
  ⟨h.now.trans h'.now, h.outlook.trans h'.outlook, h.moments.trans h'.moments,
    h.debouncer.trans h'.debouncer, h.state.trans h'.state⟩

theorem Alike.length (h : Alike world world') :
    world.1.timers.length = world'.1.timers.length := by
  rw [← Clock.length_outlook, h.outlook, Clock.length_outlook]

theorem Alike.note (h : Alike world world') (what : Happening) :
    Alike (note what world) (note what world') := by
  refine ⟨h.now, h.outlook, ?_, h.debouncer, h.state⟩
  simp only [Recorded.note, h.moments, h.now, h.debouncer, Clock.live_eq, h.outlook]

theorem Alike.cancelPending (h : Alike world world') :
    let clock := world.2.debounced.debouncer.cancelPending world.1
    let clock' := world'.2.debounced.debouncer.cancelPending world'.1
    clock.now = clock'.now ∧ clock.outlook = clock'.outlook := by
  simp only [Debouncer.cancelPending, h.debouncer]
  split
  · exact ⟨h.now, by rw [Clock.outlook_cancel, h.outlook, Clock.outlook_cancel]⟩
  · exact ⟨h.now, h.outlook⟩

/-- The world with another clock and another debouncer in it. -/
def put (world : Clock × Recorded σ) (changed : Clock × Debouncer) : Clock × Recorded σ :=
  (changed.1, { world.2 with
    debounced := { world.2.debounced with debouncer := changed.2 } })

theorem trigger_eq (world : Clock × Recorded σ) : Recorded.trigger world =
    Recorded.note (.asked world.1.timers.length)
      (put world (world.2.debounced.debouncer.trigger world.1)) :=
  rfl

theorem cancel_eq (world : Clock × Recorded σ) : Recorded.cancel world =
    Recorded.note .dropped (put world (world.2.debounced.debouncer.cancel world.1)) :=
  rfl

theorem Alike.put (h : Alike world world') {changed changed' : Clock × Debouncer}
    (now : changed.1.now = changed'.1.now) (outlook : changed.1.outlook = changed'.1.outlook)
    (debouncer : changed.2 = changed'.2) : Alike (put world changed) (put world' changed') :=
  ⟨now, outlook, h.moments, debouncer, h.state⟩

theorem Alike.obey (h : Alike world world') (command : Command) :
    Alike (obey world command) (obey world' command) := by
  obtain ⟨now, outlook⟩ := h.cancelPending
  have length := congrArg List.length outlook
  simp only [Clock.length_outlook] at length
  cases command with
  | trigger =>
    rw [Recorded.obey, Recorded.obey, trigger_eq, trigger_eq, h.length]
    refine (h.put now ?_ ?_).note _
    · rw [Debouncer.trigger, Debouncer.trigger, Clock.outlook_start, Clock.outlook_start, outlook,
        now, h.debouncer]
    · rw [Debouncer.trigger, Debouncer.trigger, length, h.debouncer]
  | cancel =>
    rw [Recorded.obey, Recorded.obey, cancel_eq, cancel_eq]
    refine (h.put now outlook ?_).note _
    simp only [Debouncer.cancel, h.debouncer]

theorem Alike.foldl_obey (h : Alike world world') (commands : List Command) :
    Alike (commands.foldl Recorded.obey world) (commands.foldl Recorded.obey world') := by
  induction commands generalizing world world' with
  | nil => exact h
  | cons command rest ih => exact ih (h.obey command)

theorem Alike.begin (h : Alike world world') (number : Nat) (debouncer : Debouncer)
    {state state' : σ} (same : state = state') :
    Alike (begin number debouncer state world) (begin number debouncer state' world') := by
  subst same
  have begun : Alike
      (world.1, { world.2 with debounced := { world.2.debounced with debouncer, state } })
      (world'.1, { world'.2 with debounced := { world'.2.debounced with debouncer, state } }) :=
    ⟨h.now, h.outlook, h.moments, rfl, rfl⟩
  exact begun.note _

theorem Alike.logFailure (h : Alike world world') (failed failed' : Bool) :
    Alike (logFailure failed world) (logFailure failed' world') :=
  ⟨h.now, h.outlook, h.moments, h.debouncer, h.state⟩

/-- Callbacks that differ in nothing but in their failures. -/
structure Agree (callback callback' : Callback σ) : Prop where
  state : ∀ s, (callback.run s).state = (callback'.run s).state
  commands : ∀ s, (callback.run s).commands = (callback'.run s).commands
  remaining : callback.remaining = callback'.remaining

theorem Alike.wake (h : Alike world world') (agree : Agree callback callback') (number : Nat) :
    Alike (wake callback number world) (wake callback' number world') := by
  cases waits : world.2.debounced.debouncer.wake? number with
  | none =>
    rw [wake_of_other callback waits, wake_of_other callback' (h.debouncer ▸ waits)]
    exact h
  | some debouncer =>
    rw [wake_of_waiting callback waits, wake_of_waiting callback' (h.debouncer ▸ waits)]
    have state : (callback.run world.2.debounced.state).state =
        (callback'.run world'.2.debounced.state).state := by
      rw [h.state, agree.state]
    have obeyed := (h.begin number debouncer state).foldl_obey
      (callback.run world.2.debounced.state).commands
    rw [h.state, agree.commands] at obeyed
    rw [h.state, agree.commands]
    exact obeyed.logFailure _ _

theorem Alike.moveTo (h : Alike world world') (time : Rat) :
    Alike (moveTo time world) (moveTo time world') := by
  have moved : Alike ({ world.1 with now := time }, world.2)
      ({ world'.1 with now := time }, world'.2) :=
    ⟨rfl, h.outlook, h.moments, h.debouncer, h.state⟩
  exact moved.note .moved

theorem Alike.markRan (h : Alike world world') (number : Nat) :
    Alike (world.1.markRan number, world.2) (world'.1.markRan number, world'.2) :=
  ⟨h.now, by rw [Clock.outlook_markRan, h.outlook, Clock.outlook_markRan], h.moments, h.debouncer,
    h.state⟩

theorem Alike.reach (h : Alike world world') (agree : Agree callback callback') (number : Nat) :
    Alike (reach callback number world) (reach callback' number world') := by
  have time : (world.1.wakeAt number).now = (world'.1.wakeAt number).now := by
    rw [Clock.wakeAt_now, Clock.wakeAt_now, h.outlook, h.now]
  rw [Recorded.reach, Recorded.reach, time]
  exact ((h.moveTo _).markRan number).wake agree number

theorem Alike.advanceTo (h : Alike world world') (agree : Agree callback callback')
    (target : Rat) (fuel : Nat) :
    Alike (advanceTo callback target fuel world) (advanceTo callback' target fuel world') := by
  induction fuel generalizing world world' with
  | zero => exact h.moveTo target
  | succ fuel ih =>
    rw [Recorded.advanceTo, Recorded.advanceTo, Clock.next?_congr h.outlook]
    cases world'.1.next? target with
    | none => exact h.moveTo target
    | some number => exact ih (h.reach agree number)

theorem Alike.perform (h : Alike world world') (agree : Agree callback callback') {step : Step}
    (fresh : step.isStale = false) :
    Alike (perform callback world step) (perform callback' world' step) := by
  cases step with
  | trigger => exact h.obey .trigger
  | cancel => exact h.obey .cancel
  | advance seconds =>
    simp only [Recorded.perform, Clock.live_eq, h.now, h.outlook, h.state, agree.remaining]
    exact h.advanceTo agree _ _
  | stale => cases fresh

/-- A stale wake-up leaves things as they are. -/
theorem Traced.stale (h : Traced delay world waiting) (alike : Alike world world')
    (callback : Callback σ) (number : Nat) :
    Alike (Recorded.perform callback world (.stale number)) world' := by
  obtain ⟨same, now, outlook⟩ := h.wakeCancelled callback number
  change Alike (Recorded.wakeCancelled callback number world) world'
  constructor
  · rw [now, alike.now]
  · rw [outlook, alike.outlook]
  · rw [same, alike.moments]
  · rw [same, alike.debouncer]
  · rw [same, alike.state]

/-- A run without the stale wake-ups in it, and with a callback that agrees, is alike. -/
theorem alike_run (nonneg : 0 ≤ delay) (agree : Agree callback callback') (state : σ)
    (steps : List Step) : Alike (run callback delay state steps)
      (run callback' delay state (steps.filter fun step => !step.isStale)) := by
  have keeps {world world' : Clock × Recorded σ} (traced : ∃ waiting, Traced delay world waiting)
      (alike : Alike world world') : Alike (steps.foldl (Recorded.perform callback) world)
        ((steps.filter fun step => !step.isStale).foldl (Recorded.perform callback') world') := by
    induction steps generalizing world world' with
    | nil => exact alike
    | cons step rest ih =>
      obtain ⟨waiting, here⟩ := traced
      have next := here.perform nonneg callback step
      cases stale : step.isStale with
      | false =>
        rw [List.filter_cons_of_pos (by simp [stale])]
        exact ih next (alike.perform agree stale)
      | true =>
        rw [List.filter_cons_of_neg (by simp [stale])]
        refine ih next ?_
        cases step with
        | stale number => exact here.stale alike callback number
        | _ => cases stale
  exact keeps ⟨none, traced_initial delay state⟩ ⟨rfl, rfl, rfl, rfl, rfl⟩

end Recorded

/-- The callback without its failures. -/
def calm (callback : Callback σ) : Callback σ :=
  { callback with run := fun s => { callback.run s with failed := false } }

/-- Over any order of steps a new debouncer has one live timer at most, and a run is pending if it
has one. The callback runs once for each trigger that is the last one when its time comes, at that
time, and for nothing else. A stale wake-up leaves the debouncer and its callback alone, and neither
it nor a failure of the callback changes anything that happens. -/
theorem punctual_run {delay : Rat} (nonneg : 0 ≤ delay) (callback : Callback σ) (state : σ)
    (steps : List Step) :
    let world := Recorded.run callback delay state steps
    Recorded.plain world = steps.foldl (perform callback) (initial delay state) ∧
      (∀ moment ∈ world.2.moments, moment.Single) ∧
      world.1.live ≤ 1 ∧ (world.2.debounced.debouncer.pending.isSome = true ↔ world.1.live = 1) ∧
      Punctual delay world.2.moments ∧
      (∀ number, (Recorded.perform callback world (.stale number)).2 = world.2) ∧
      Recorded.Alike world
        (Recorded.run callback delay state (steps.filter fun step => !step.isStale)) ∧
      Recorded.Alike world (Recorded.run (calm callback) delay state steps) := by
  intro world
  obtain ⟨waiting, traced⟩ := Recorded.traced_run nonneg callback state steps
  have same (callback : Callback σ) : Recorded.Agree callback callback :=
    ⟨fun _ => rfl, fun _ => rfl, rfl⟩
  have calms : Recorded.Agree callback (calm callback) := ⟨fun _ => rfl, fun _ => rfl, rfl⟩
  have fresh := Recorded.alike_run nonneg (same callback) state steps
  have freshCalm := Recorded.alike_run nonneg calms state steps
  have calmFreshCalm := Recorded.alike_run nonneg (same (calm callback)) state steps
  refine ⟨Recorded.plain_run .., traced.unfolds.single, ?_, ?_, traced.unfolds.punctual, ?_,
    fresh, freshCalm.trans calmFreshCalm.symm⟩
  · rw [traced.awaits.live]
    split <;> simp
  · rw [traced.pending, traced.awaits.live]
    split <;> simp_all
  · exact fun number => (traced.wakeCancelled callback number).1

/-- Asks for another run as often as it is told to, and fails every time. -/
def countdown : Callback Nat where
  run := fun
    | 0 => ⟨0, [], true⟩
    | n + 1 => ⟨n, [.trigger], true⟩
  remaining := id
  remaining_run := fun
    | 0 => Nat.le_refl 0
    | n + 1 => by simp [Reply.triggers, Nat.add_comm]

/-- The second of two triggers runs, and so do the two runs that follow from it; the timer that was
replaced wakes as well, and runs nothing. -/
theorem punctual_run_countdown :
    let delay : Rat := 2
    let steps : List Step := [.trigger, .advance 1, .trigger, .stale 0, .advance 9]
    let moments := (Recorded.run countdown delay 2 steps).2.moments
    0 ≤ delay ∧ Punctual delay moments ∧ askedNumbers moments = [0, 1, 2, 3] ∧
      [0, 1, 2, 3].map (runsOf · moments) = [[], [3], [5], [7]] := by
  intro delay steps moments
  have nonneg : 0 ≤ delay := by decide +kernel
  obtain ⟨-, -, -, -, punctual, -⟩ := punctual_run nonneg countdown 2 steps
  exact ⟨nonneg, punctual, by decide +kernel, by decide +kernel⟩

end ThemeSheet.Debounced
