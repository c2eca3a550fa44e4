import ThemeSheet.Debouncer

namespace ThemeSheet

/-- Events of several types, each type known by its name. -/
class Typed (ε : Type) where
  typeName : ε → String

/-- What one listener does at an event: the listeners it registers, for all events or for those of
one type, the commands it gives to the debouncer that the events come from, and whether it fails. -/
structure Reaction (listener : Type) where
  added : List (Option String × listener)
  commands : List Command
  failed : Bool

/-- Receives events. What it does can depend on how many events the bus has carried before. -/
inductive Listener (ε : Type)
  | acting (label : String) (react : Nat → ε → Reaction (Listener ε))

namespace Listener

variable {ε : Type}

def label : Listener ε → String
  | acting label _ => label

def react : Listener ε → Nat → ε → Reaction (Listener ε)
  | acting _ react => react

/-- Gives no commands. -/
def mk (label : String) (react : Nat → ε → List (Option String × Listener ε) × Bool) :
    Listener ε :=
  acting label fun number event =>
    let (added, failed) := react number event
    ⟨added, [], failed⟩

/-- Only receives. -/
def plain (label : String) : Listener ε :=
  mk label fun _ _ => ([], false)

/-- Fails at every event. -/
def failing (label : String) : Listener ε :=
  mk label fun _ _ => ([], true)

end Listener

/-- Hands each event to the listeners for all events and then to those for its type, both in the
order registered. -/
structure Bus (ε : Type) where
  global : List (Listener ε)
  typed : List (String × Listener ε)
  emitted : Nat

namespace Bus

variable {ε : Type}

def logger : String := "cssvars.events.bus"

def empty : Bus ε := ⟨[], [], 0⟩

def onAll (bus : Bus ε) (listener : Listener ε) : Bus ε :=
  { bus with global := bus.global ++ [listener] }

def subscribe (bus : Bus ε) (typeName : String) (listener : Listener ε) : Bus ε :=
  { bus with typed := bus.typed ++ [(typeName, listener)] }

/-- Registers for one type of event, or for all. -/
def register (bus : Bus ε) (registration : Option String × Listener ε) : Bus ε :=
  match registration with
  | (none, listener) => bus.onAll listener
  | (some typeName, listener) => bus.subscribe typeName listener

/-- The listeners that an event of a type is for. -/
def listeners (bus : Bus ε) (typeName : String) : List (Listener ε) :=
  bus.global ++ (bus.typed.filter (·.1 == typeName)).map (·.2)

def failureNote (typeName : String) (listener : Listener ε) : LogRecord :=
  ⟨.error, logger, s!"Listener <listener {listener.label}> failed on {typeName}"⟩

/-- What an event leaves: the bus, the listeners that received it in order, the commands they gave,
and a note for each that failed. -/
structure Emission (ε : Type) where
  bus : Bus ε
  reached : List (Listener ε)
  commands : List Command
  logs : List LogRecord

variable [Typed ε]

/-- Hands the event to one more listener. A failure is noted and stops nothing. -/
def deliver (number : Nat) (event : ε) (emission : Emission ε) (listener : Listener ε) :
    Emission ε :=
  let reaction := listener.react number event
  { bus := reaction.added.foldl register emission.bus
    reached := emission.reached ++ [listener]
    commands := emission.commands ++ reaction.commands
    logs := emission.logs ++
      if reaction.failed then [failureNote (Typed.typeName event) listener] else [] }

/-- Hands an event to the listeners registered before it. One that is registered on the way
receives later events only. -/
def emit (bus : Bus ε) (event : ε) : Emission ε :=
  (bus.listeners (Typed.typeName event)).foldl (deliver bus.emitted event)
    ⟨{ bus with emitted := bus.emitted + 1 }, [], [], []⟩

end Bus
end ThemeSheet
