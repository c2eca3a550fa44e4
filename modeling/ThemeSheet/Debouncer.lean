import ThemeSheet.Clock
import ThemeSheet.Log

namespace ThemeSheet

/-- Lets one wake-up through, a delay after the last of a burst of triggers. Each trigger cancels
the timer before it, so at most one is pending. -/
structure Debouncer where
  delay : Rat
  pending : Option Nat
deriving DecidableEq, Repr

namespace Debouncer

def logger : String := "cssvars.engine.debounce"

def make (delay : Rat) : Debouncer := ⟨delay, none⟩

def cancelPending (d : Debouncer) (clock : Clock) : Clock :=
  match d.pending with
  | some number => clock.cancel number
  | none => clock

def trigger (d : Debouncer) (clock : Clock) : Clock × Debouncer :=
  let clock := d.cancelPending clock
  (clock.start d.delay, { d with pending := some clock.timers.length })

def cancel (d : Debouncer) (clock : Clock) : Clock × Debouncer :=
  (d.cancelPending clock, { d with pending := none })

/-- What a timer that wakes does to the debouncer that waits for it. A timer that was replaced or
cancelled is ignored. -/
def wake? (d : Debouncer) (number : Nat) : Option Debouncer :=
  if d.pending = some number then some { d with pending := none } else none

end Debouncer

/-- What a debouncer may be asked for, also by the callback that it runs. -/
inductive Command
  | trigger
  | cancel
deriving DecidableEq, Repr

/-- What comes of one run of a callback. -/
structure Reply (σ : Type) where
  state : σ
  commands : List Command
  failed : Bool

def Reply.triggers {σ : Type} (reply : Reply σ) : Nat :=
  reply.commands.count .trigger

/-- A callback with a state of its own. Each state leaves a number of triggers to come, so that the
callback cannot keep itself running forever. -/
structure Callback (σ : Type) where
  run : σ → Reply σ
  remaining : σ → Nat
  remaining_run : ∀ s, (run s).triggers + remaining (run s).state ≤ remaining s

/-- A debouncer at work: with its callback's state, and with what was logged. -/
structure Debounced (σ : Type) where
  debouncer : Debouncer
  state : σ
  logs : List LogRecord

namespace Debounced

variable {σ : Type}

def failureNote : LogRecord :=
  ⟨.error, Debouncer.logger, "Debounced callback failed"⟩

def trigger (world : Clock × Debounced σ) : Clock × Debounced σ :=
  let (clock, debouncer) := world.2.debouncer.trigger world.1
  (clock, { world.2 with debouncer })

def cancel (world : Clock × Debounced σ) : Clock × Debounced σ :=
  let (clock, debouncer) := world.2.debouncer.cancel world.1
  (clock, { world.2 with debouncer })

def obey (world : Clock × Debounced σ) : Command → Clock × Debounced σ
  | .trigger => trigger world
  | .cancel => cancel world

/-- Runs the callback if the timer is the one waited for. A callback that fails is logged. -/
def wake (callback : Callback σ) (number : Nat) (world : Clock × Debounced σ) :
    Clock × Debounced σ :=
  match world.2.debouncer.wake? number with
  | none => world
  | some debouncer =>
    let reply := callback.run world.2.state
    let (clock, d) :=
      reply.commands.foldl obey (world.1, { world.2 with debouncer, state := reply.state })
    (clock, { d with logs := d.logs ++ if reply.failed then [failureNote] else [] })

/-- Lets time pass. Every wake-up takes a live timer or one that the callback may yet start. -/
def advance (callback : Callback σ) (seconds : Rat) (world : Clock × Debounced σ) :
    Clock × Debounced σ :=
  Clock.advanceTo (wake callback) (world.1.now + seconds)
    (world.1.live + callback.remaining world.2.state) world

/-- A timer that was cancelled wakes all the same, as if it had been too late to stop it. Tells
whether there was one. -/
def wakeStale (callback : Callback σ) (world : Clock × Debounced σ) :
    (Clock × Debounced σ) × Bool :=
  match world.1.lastStale? with
  | none => (world, false)
  | some number => (wake callback number (world.1.markRan number, world.2), true)

end Debounced
end ThemeSheet
