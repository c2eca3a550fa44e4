import ThemeSheet.Bus

/-! Who receives an event. Over a whole history of registrations and emissions, listeners that fail
and listeners that register others among them, it is those that were registered before it, once for
each of their registrations. -/

namespace ThemeSheet

/-- A listener with the type of event that it is for. Without a type it is for all events. -/
abbrev Registration (ε : Type) : Type := Option String × Listener ε

namespace Registration

variable {ε : Type}

/-- The listeners that are for all events, in the order registered. -/
def forAll (registrations : List (Registration ε)) : List (Listener ε) :=
  (registrations.filter (·.1 == none)).map (·.2)

/-- The listeners that are for one type of event, in the order registered. -/
def forType (typeName : String) (registrations : List (Registration ε)) : List (Listener ε) :=
  (registrations.filter (·.1 == some typeName)).map (·.2)

theorem forAll_append (registrations more : List (Registration ε)) :
    forAll (registrations ++ more) = forAll registrations ++ forAll more := by
  simp [forAll]

theorem forType_append (typeName : String) (registrations more : List (Registration ε)) :
    forType typeName (registrations ++ more) =
      forType typeName registrations ++ forType typeName more := by
  simp [forType]

end Registration

namespace Bus

open Registration (forAll forType forAll_append forType_append)

/-- What a program asks of a bus. -/
inductive Call (ε : Type)
  | onAll (listener : Listener ε)
  | subscribe (typeName : String) (listener : Listener ε)
  | emit (event : ε)

variable {ε : Type}

/-! What one call registers. -/

/-- What a bus knows of the registrations made with it: for every type of event its listeners, and
those for all events. -/
structure Knows (bus : Bus ε) (registrations : List (Registration ε)) : Prop where
  global : bus.global = forAll registrations
  typed : ∀ typeName,
    (bus.typed.filter (·.1 == typeName)).map (·.2) = forType typeName registrations

theorem knows_empty : Knows (empty : Bus ε) [] :=
  ⟨rfl, fun _ => rfl⟩

theorem Knows.counted {bus : Bus ε} {registrations : List (Registration ε)}
    (knows : bus.Knows registrations) (emitted : Nat) :
    Knows { bus with emitted } registrations :=
  ⟨knows.global, knows.typed⟩

theorem Knows.register {bus : Bus ε} {registrations : List (Registration ε)}
    (knows : bus.Knows registrations) (registration : Registration ε) :
    (bus.register registration).Knows (registrations ++ [registration]) := by
  obtain ⟨type, listener⟩ := registration
  cases type with
  | none =>
    constructor
    · rw [forAll_append, ← knows.global]
      rfl
    · intro typeName
      rw [forType_append, ← knows.typed]
      exact (List.append_nil _).symm
  | some registered =>
    constructor
    · rw [forAll_append, ← knows.global]
      exact (List.append_nil _).symm
    · intro typeName
      rw [forType_append, ← knows.typed]
      change ((bus.typed ++ [(registered, listener)]).filter _).map _ = _
      rw [List.filter_append, List.map_append]
      by_cases same : registered = typeName
      · simp [forType, same]
      · simp [forType, same]

theorem Knows.registerAll {bus : Bus ε} {registrations : List (Registration ε)}
    (knows : bus.Knows registrations) (more : List (Registration ε)) :
    (more.foldl Bus.register bus).Knows (registrations ++ more) := by
  induction more generalizing bus registrations with
  | nil => simpa using knows
  | cons registration more ih =>
    have step := ih (knows.register registration)
    rwa [List.append_assoc] at step

variable [Typed ε]

/-- The registrations that listeners make while they receive an event. -/
def added (number : Nat) (event : ε) (listeners : List (Listener ε)) : List (Registration ε) :=
  listeners.flatMap fun listener => (listener.react number event).added

/-- One note for each listener that fails at an event. -/
def failures (number : Nat) (event : ε) (listeners : List (Listener ε)) : List LogRecord :=
  (listeners.filter fun listener => (listener.react number event).failed).map
    (failureNote (Typed.typeName event))

/-- Whatever the listeners do, each is handed the event, and what they register, and the notes on
those that fail, are in their order. -/
theorem foldl_deliver (number : Nat) (event : ε) (listeners : List (Listener ε))
    (emission : Emission ε) :
    let delivered := listeners.foldl (deliver number event) emission
    delivered.reached = emission.reached ++ listeners ∧
      delivered.bus = (added number event listeners).foldl register emission.bus ∧
      delivered.logs = emission.logs ++ failures number event listeners := by
  induction listeners generalizing emission with
  | nil => simp [added, failures]
  | cons listener listeners ih =>
    obtain ⟨reached, bus, logs⟩ := ih (deliver number event emission listener)
    refine ⟨?_, ?_, ?_⟩
    · rw [List.foldl_cons, reached]
      exact List.append_assoc _ _ _
    · rw [List.foldl_cons, bus, added, added, List.flatMap_cons, List.foldl_append]
      rfl
    · rw [List.foldl_cons, logs]
      change (emission.logs ++ if (listener.react number event).failed then _ else _) ++ _ = _
      rw [List.append_assoc]
      congr 1
      cases failed : (listener.react number event).failed <;> simp [failures, failed]

theorem Knows.emit {bus : Bus ε} {registrations : List (Registration ε)}
    (knows : bus.Knows registrations) (event : ε) :
    (bus.emit event).reached =
        forAll registrations ++ forType (Typed.typeName event) registrations ∧
      (bus.emit event).logs = failures bus.emitted event (bus.emit event).reached ∧
      (bus.emit event).bus.Knows
        (registrations ++ added bus.emitted event (bus.emit event).reached) := by
  obtain ⟨reached, after, logs⟩ := foldl_deliver bus.emitted event
    (bus.listeners (Typed.typeName event)) ⟨{ bus with emitted := bus.emitted + 1 }, [], [], []⟩
  rw [List.nil_append] at reached logs
  rw [Bus.emit, reached, after, logs]
  refine ⟨?_, rfl, (knows.counted _).registerAll _⟩
  rw [listeners, knows.global, knows.typed]

/-! Histories. -/

def perform (bus : Bus ε) : Call ε → Bus ε
  | .onAll listener => bus.onAll listener
  | .subscribe typeName listener => bus.subscribe typeName listener
  | .emit event => (bus.emit event).bus

/-- The registrations that a call makes, itself or through the listeners that it reaches. -/
def registered (bus : Bus ε) : Call ε → List (Registration ε)
  | .onAll listener => [(none, listener)]
  | .subscribe typeName listener => [(some typeName, listener)]
  | .emit event => added bus.emitted event (bus.emit event).reached

/-- A bus after calls, from the first to the last. -/
def performAll (bus : Bus ε) (calls : List (Call ε)) : Bus ε :=
  calls.foldl perform bus

/-- All registrations that calls make, oldest first. -/
def registeredAll (bus : Bus ε) : List (Call ε) → List (Registration ε)
  | [] => []
  | call :: calls => bus.registered call ++ (bus.perform call).registeredAll calls

theorem Knows.perform {bus : Bus ε} {registrations : List (Registration ε)}
    (knows : bus.Knows registrations) (call : Call ε) :
    (bus.perform call).Knows (registrations ++ bus.registered call) := by
  cases call with
  | onAll listener => exact knows.register (none, listener)
  | subscribe typeName listener => exact knows.register (some typeName, listener)
  | emit event => exact (knows.emit event).2.2

theorem Knows.performAll {bus : Bus ε} {registrations : List (Registration ε)}
    (knows : bus.Knows registrations) (calls : List (Call ε)) :
    (bus.performAll calls).Knows (registrations ++ bus.registeredAll calls) := by
  induction calls generalizing bus registrations with
  | nil =>
    rw [registeredAll, List.append_nil]
    exact knows
  | cons call calls ih =>
    have step := ih (knows.perform call)
    rwa [List.append_assoc] at step

theorem registeredAll_append (bus : Bus ε) (calls more : List (Call ε)) :
    bus.registeredAll (calls ++ more) =
      bus.registeredAll calls ++ (bus.performAll calls).registeredAll more := by
  induction calls generalizing bus with
  | nil => rfl
  | cons call calls ih =>
    rw [List.cons_append, registeredAll, ih, registeredAll, List.append_assoc]
    rfl

/-- After any calls, an event is handed to the listeners registered before it for all events and
then to those for its type, each as often as it is registered and in the order registered. Whichever
of them fail, there is one note for each that does. What they register comes behind all earlier
registrations, for the events that follow. -/
theorem emit_delivers (calls : List (Call ε)) (event : ε) :
    let bus := (empty : Bus ε).performAll calls
    let registrations := (empty : Bus ε).registeredAll calls
    let emission := bus.emit event
    emission.reached = forAll registrations ++ forType (Typed.typeName event) registrations ∧
      emission.logs = failures bus.emitted event emission.reached ∧
      (empty : Bus ε).registeredAll (calls ++ [.emit event]) =
        registrations ++ added bus.emitted event emission.reached := by
  intro bus registrations emission
  have knows : bus.Knows registrations := by simpa using knows_empty.performAll calls
  obtain ⟨reached, logs, -⟩ := knows.emit event
  refine ⟨reached, logs, ?_⟩
  rw [registeredAll_append]
  exact congrArg _ (List.append_nil _)

end Bus
end ThemeSheet
