namespace ThemeSheet

/-- A timer that was started. It wakes once, when it is due, unless it is cancelled before. -/
structure Timer where
  due : Rat
  cancelled : Bool
  ran : Bool
deriving DecidableEq, Repr

def Timer.isLive (timer : Timer) : Bool :=
  !timer.cancelled && !timer.ran

/-- The time in seconds and every timer in the order started, which numbers them. -/
structure Clock where
  now : Rat
  timers : List Timer
deriving DecidableEq, Repr

namespace Clock

def initial : Clock := ⟨0, []⟩

/-- Starts a timer, whose number is the count of those before it. -/
def start (clock : Clock) (delay : Rat) : Clock :=
  { clock with timers := clock.timers ++ [⟨clock.now + delay, false, false⟩] }

def cancel (clock : Clock) (number : Nat) : Clock :=
  { clock with timers := clock.timers.modify number fun timer => { timer with cancelled := true } }

def markRan (clock : Clock) (number : Nat) : Clock :=
  { clock with timers := clock.timers.modify number fun timer => { timer with ran := true } }

def live (clock : Clock) : Nat :=
  clock.timers.countP Timer.isLive

/-- The earlier of two timers, and of two due at one time the one started first. -/
def sooner (timers : List Timer) (first : Option Nat) (number : Nat) : Option Nat :=
  match first with
  | none => some number
  | some first =>
    match timers[first]?, timers[number]? with
    | some a, some b => if b.due < a.due then some number else some first
    | _, _ => some first

/-- Whether a timer is live and may wake by `target`. -/
def isDue (clock : Clock) (target : Rat) (number : Nat) : Bool :=
  (clock.timers[number]?).any fun timer => timer.isLive && timer.due ≤ target

/-- The live timer that wakes first, if one is due by `target`. -/
def next? (clock : Clock) (target : Rat) : Option Nat :=
  ((List.range clock.timers.length).filter (clock.isDue target)).foldl (sooner clock.timers) none

/-- The clock at the moment a timer wakes. -/
def wakeAt (clock : Clock) (number : Nat) : Clock :=
  let due := match clock.timers[number]? with
    | some timer => timer.due
    | none => clock.now
  { clock.markRan number with now := due }

/-- The last timer started among those that were cancelled and have not run. -/
def lastStale? (clock : Clock) : Option Nat :=
  let isStale (number : Nat) : Bool :=
    match clock.timers[number]? with
    | some timer => timer.cancelled && !timer.ran
    | none => false
  ((List.range clock.timers.length).filter isStale).getLast?

/-- Moves the clock to `target`. On the way every timer that is due wakes, also one that was started
by a wake-up before; `fuel` bounds the wake-ups. -/
def advanceTo {σ : Type} (wake : Nat → Clock × σ → Clock × σ) (target : Rat) :
    (fuel : Nat) → Clock × σ → Clock × σ
  | 0, (clock, state) => ({ clock with now := target }, state)
  | fuel + 1, (clock, state) =>
    match clock.next? target with
    | none => ({ clock with now := target }, state)
    | some number => advanceTo wake target fuel (wake number (clock.wakeAt number, state))

end Clock
end ThemeSheet
