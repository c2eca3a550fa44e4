import ThemeSheet.Proofs.CycleRuns
import ThemeSheet.Proofs.FailedCycle

/-! What a controller tells of its cycles: each cycle whole, one after the other, and in agreement
with its outcome. -/

namespace ThemeSheet

def Occurrence.event? : Occurrence → Option CycleEvent
  | .event told => some told
  | _ => none

namespace Engine

open Literal (Mapping)

/-- The events that were emitted, in order. -/
def events (e : Engine) : List CycleEvent :=
  e.trace.filterMap Occurrence.event?

/-- The events of one complete cycle and the outcome that it returns. -/
inductive Follows (config : Config) (trigger : String) : List CycleEvent → Outcome → Prop
  | succeeded (count : Nat) :
      Follows config trigger
        [.started config.source trigger, .succeeded config.output count]
        (.success config.output count)
  | unformatted (error : String) (count : Nat) :
      Follows config trigger
        [.started config.source trigger, .formattingFailed config.output error,
          .succeeded config.output count]
        (.success config.output count)
  | failed (error kind : String) :
      Follows config trigger [.started config.source trigger, .failed error kind]
        (.failure error kind)

/-- A part of a cycle, with what is told in it. It leaves alone what the cycle as a whole leaves
alone, whatever the listeners do. -/
structure Leads (e e' : Engine) (told : List CycleEvent) : Prop where
  events : e'.events = e.events ++ told
  config : e'.config = e.config
  cycles : e'.controller.cycles = e.controller.cycles
  debouncer : e'.controller.debouncer = e.controller.debouncer

variable {e e' e'' : Engine} {cwd : List String}

theorem Leads.trans {told more : List CycleEvent} (h : Leads e e' told) (h' : Leads e' e'' more) :
    Leads e e'' (told ++ more) where
  events := by rw [h'.events, h.events, List.append_assoc]
  config := h'.config.trans h.config
  cycles := h'.cycles.trans h.cycles
  debouncer := h'.debouncer.trans h.debouncer

/-- A silent part after another adds nothing to what is told. -/
theorem Leads.silent {told : List CycleEvent} (h : Leads e e' told) (h' : Leads e' e'' []) :
    Leads e e'' told := by
  simpa using h.trans h'

theorem leads_of_trace {told : List CycleEvent} {more : List Occurrence}
    (controller : e'.controller = e.controller) (trace : e'.trace = e.trace ++ more)
    (tells : more.filterMap Occurrence.event? = told) : Leads e e' told where
  events := by rw [events, trace, List.filterMap_append, tells, events]
  config := by rw [Engine.config, controller, Engine.config]
  cycles := by rw [controller]
  debouncer := by rw [controller]

theorem leads_log (e : Engine) (level : Level) (message : String) :
    Leads e (e.log level message) [] :=
  leads_of_trace rfl rfl rfl

theorem leads_logAll (e : Engine) (records : List LogRecord) : Leads e (e.logAll records) [] := by
  refine leads_of_trace rfl rfl ?_
  simp [List.filterMap_map, Occurrence.event?, Function.comp_def]

/-- Listeners may fail, register others and give commands: what is told is the event. -/
theorem leads_emit (e : Engine) (event : CycleEvent) : Leads e (e.emit event) [event] := by
  let heard := ({ e with controller := { e.controller with
    bus := (e.controller.bus.emit event).bus
    commands := e.controller.commands ++ (e.controller.bus.emit event).commands } }).note
      (.event event)
  have told : Leads e heard [event] := by
    refine ⟨?_, rfl, rfl, rfl⟩
    exact List.filterMap_append
  exact told.silent (leads_logAll heard (e.controller.bus.emit event).logs)

theorem leads_enter (e : Engine) (state : CycleState) : Leads e (e.enter state) [] where
  events := (List.append_nil _).symm
  config := rfl
  cycles := rfl
  debouncer := rfl

theorem extract_leads {result : Except CycleFault Mapping} (h : e.extract cwd = (e', result)) :
    Leads e e' [] := by
  cases h
  exact (leads_enter e .extracting).silent (leads_logAll _ _)

theorem generate_leads {mapping : Mapping} {result : Except CycleFault String}
    (h : e.generate mapping = (e', result)) : Leads e e' [] := by
  cases h
  exact leads_enter e .generating

theorem write_leads {text : String} {result : Except CycleFault Unit}
    (h : e.write cwd text = (e', result)) : Leads e e' [] := by
  have entered := leads_enter e .writing
  rw [write] at h
  split at h
  · cases h
    exact ⟨entered.events, entered.config, entered.cycles, entered.debouncer⟩
  · cases h
    exact ⟨entered.events, entered.config, entered.cycles, entered.debouncer⟩

theorem formatter_leads {result : Except Format.Fault Formatter}
    (h : e.formatter = (e', result)) : Leads e e' [] := by
  rw [formatter] at h
  split at h
  · cases h
    exact leads_of_trace rfl (List.append_nil _).symm rfl
  · cases h
    refine Leads.silent ?_ (leads_logAll _ _)
    refine ⟨?_, rfl, rfl, rfl⟩
    exact List.filterMap_append

theorem runFormatter_leads {path : Path} {result : Except Format.Fault Unit}
    (h : e.runFormatter path = (e', result)) : Leads e e' [] := by
  rw [runFormatter] at h
  split at h
  · rename_i asked fault made
    cases h
    exact formatter_leads made
  · rename_i asked formatter made
    cases h
    refine (formatter_leads made).silent ?_
    exact leads_of_trace rfl rfl rfl

/-- What a stage tells before a cycle's last event: nothing, or that the output could not be
formatted, which fails no cycle. -/
def Murmur {α : Type} (config : Config) (told : List CycleEvent) (result : Except CycleFault α) :
    Prop :=
  told = [] ∨ ∃ error value, told = [.formattingFailed config.output error] ∧ result = .ok value

theorem format_leads {result : Except CycleFault Unit} (h : e.format = (e', result)) :
    ∃ told, Leads e e' told ∧ Murmur e.config told result := by
  rw [format] at h
  have entered := leads_enter e .formatting
  split at h
  · rename_i ran
    cases h
    exact ⟨[], entered.silent (runFormatter_leads ran), .inl rfl⟩
  · rename_i after fault ran
    have ran := entered.silent (runFormatter_leads ran)
    split at h
    · cases h
      have config : after.config = e.config := ran.config
      rw [config]
      exact ⟨_, (ran.silent (leads_log after _ _)).trans (leads_emit _ _), .inr ⟨_, (), rfl, rfl⟩⟩
    · cases h
      exact ⟨[], ran, .inl rfl⟩

theorem stages_leads {result : Except CycleFault Nat} (h : e.stages cwd = (e', result)) :
    ∃ told, Leads e e' told ∧ Murmur e.config told result := by
  rw [stages] at h
  split at h
  · rename_i extracted _ hx
    cases h
    exact ⟨[], extract_leads hx, .inl rfl⟩
  · rename_i extracted mapping hx
    have read := extract_leads hx
    split at h
    · rename_i hg
      cases h
      exact ⟨[], read.silent (generate_leads hg), .inl rfl⟩
    · rename_i generated text hg
      have rendered := read.silent (generate_leads hg)
      split at h
      · rename_i hw
        cases h
        exact ⟨[], rendered.silent (write_leads hw), .inl rfl⟩
      · rename_i written hw
        have saved := rendered.silent (write_leads hw)
        split at h
        · rename_i formatted fault hf
          obtain ⟨told, leads, murmur⟩ := format_leads hf
          cases h
          refine ⟨told, saved.trans leads, .inl ?_⟩
          rcases murmur with silent | ⟨_, _, -, fine⟩
          · exact silent
          · cases fine
        · rename_i formatted hf
          obtain ⟨told, leads, murmur⟩ := format_leads hf
          cases h
          refine ⟨told, saved.trans leads, ?_⟩
          rcases murmur with silent | ⟨error, _, only, -⟩
          · exact .inl silent
          · exact .inr ⟨error, mapping.length, saved.config ▸ only, rfl⟩

theorem begun_leads (e : Engine) (trigger : String) :
    (e.begun trigger).events = e.events ++ [.started e.config.source trigger] ∧
      (e.begun trigger).config = e.config ∧
      (e.begun trigger).controller.cycles = e.controller.cycles + 1 ∧
      (e.begun trigger).controller.debouncer = e.controller.debouncer := by
  let counted : Engine :=
    { e with controller := { e.controller with cycles := e.controller.cycles + 1 } }
  obtain ⟨events, config, cycles, debouncer⟩ :=
    leads_emit counted (.started e.config.source trigger)
  exact ⟨events, config, cycles, debouncer⟩

theorem succeed_leads (e : Engine) (count : Nat) :
    Leads e (e.succeed count).1 [.succeeded e.config.output count] :=
  (leads_log e _ _).trans (leads_emit _ _)

theorem fail_leads (e : Engine) (fault : CycleFault) :
    Leads e (e.fail fault).1 [.failed fault.message fault.kind] := by
  rw [fail]
  split
  · exact ((leads_log e _ _).silent (leads_log _ _ _)).trans (leads_emit _ _)
  · exact (leads_log e _ _).trans (leads_emit _ _)

/-- One cycle ends idle, counts itself, and tells the events that go with what it returns. -/
theorem regenerate_follows (cwd : List String) (trigger : String) (e : Engine) :
    let after := (e.regenerate cwd trigger).1
    after.controller.state = .idle ∧ after.config = e.config ∧
      after.controller.cycles = e.controller.cycles + 1 ∧
      after.controller.debouncer = e.controller.debouncer ∧
      ∃ told, after.events = e.events ++ told ∧
        Follows e.config trigger told (e.regenerate cwd trigger).2 := by
  obtain ⟨events, config, cycles, debouncer⟩ := begun_leads e trigger
  cases ran : (e.begun trigger).stages cwd with
  | mk staged result =>
    obtain ⟨told, leads, murmur⟩ := stages_leads ran
    rw [config] at murmur
    have config' := leads.config.trans config
    cases result with
    | ok count =>
      have ended := (leads.trans (succeed_leads staged count)).silent (leads_enter _ .idle)
      rw [regenerate_ok ran]
      refine ⟨rfl, ended.config.trans config, ended.cycles.trans cycles,
        ended.debouncer.trans debouncer,
        .started e.config.source trigger :: (told ++ [.succeeded e.config.output count]), ?_, ?_⟩
      · rw [ended.events, events, config']
        simp
      · rw [succeed, config']
        rcases murmur with rfl | ⟨error, _, rfl, -⟩
        · exact .succeeded count
        · exact .unformatted error count
    | error fault =>
      -- A fault of the formatter that was told of has been absorbed, so it is no fault of the cycle.
      obtain rfl : told = [] := by
        rcases murmur with silent | ⟨_, _, -, fine⟩
        · exact silent
        · cases fine
      have ended := (leads.trans (fail_leads staged fault)).silent (leads_enter _ .idle)
      rw [regenerate_error ran]
      refine ⟨rfl, ended.config.trans config, ended.cycles.trans cycles,
        ended.debouncer.trans debouncer,
        [.started e.config.source trigger, .failed fault.message fault.kind], ?_,
        .failed _ _⟩
      rw [ended.events, events]
      simp

/-! Over any run. -/

/-- What a history of cycles and the events that were emitted have to do with each other. -/
structure Protocol (config : Config) (cwd : List String) (r : Recorded) : Prop where
  configured : r.engine.config = config
  idle : r.engine.controller.state = .idle
  counted : r.engine.controller.cycles = r.runs.length
  between : ∀ run ∈ r.runs, run.before.controller.state = .idle ∧
    (run.after cwd).controller.state = .idle
  told : ∃ parts, r.engine.events = parts.flatten ∧
    List.Forall₂ (fun part run => Follows config run.trigger part (run.outcome cwd)) parts r.runs

variable {config : Config}

/-- A change that has nothing to do with a cycle. -/
structure Apart (e e' : Engine) : Prop where
  events : e'.events = e.events
  config : e'.config = e.config
  state : e'.controller.state = e.controller.state
  cycles : e'.controller.cycles = e.controller.cycles

theorem Protocol.apart {r r' : Recorded} (h : Protocol config cwd r) (runs : r'.runs = r.runs)
    (apart : Apart r.engine r'.engine) : Protocol config cwd r' where
  configured := apart.config.trans h.configured
  idle := apart.state.trans h.idle
  counted := by rw [apart.cycles, h.counted, runs]
  between := by rw [runs]; exact h.between
  told := by rw [apart.events, runs]; exact h.told

theorem Protocol.ran {r : Recorded} (h : Protocol config cwd r) (trigger : String) :
    let run : CycleRun := ⟨r.engine, trigger⟩
    Protocol config cwd ⟨run.after cwd, r.incidents ++ [.ran run]⟩ := by
  intro run
  obtain ⟨idle, kept, cycles, -, told, events, follows⟩ :=
    regenerate_follows cwd trigger r.engine
  constructor
  · exact kept.trans h.configured
  · exact idle
  · rw [Recorded.runs_ran, List.length_append, List.length_singleton, ← h.counted]
    exact cycles
  · rw [Recorded.runs_ran]
    intro run' there
    rcases List.mem_append.mp there with before | last
    · exact h.between run' before
    · cases List.mem_singleton.mp last
      exact ⟨h.idle, idle⟩
  · obtain ⟨parts, past, follow⟩ := h.told
    refine ⟨parts ++ [told], ?_, ?_⟩
    · rw [List.flatten_append, List.flatten_singleton, ← past]
      exact events
    · rw [Recorded.runs_ran]
      exact List.rel_append follow (.cons (h.configured ▸ follows) .nil)

theorem lasting_protocol (config : Config) (cwd : List String) :
    Recorded.Lasting cwd (Protocol config cwd) where
  ran := fun _ trigger h => h.ran trigger
  edited := fun r files h => h.apart (r.runs_edited _ files) ⟨rfl, rfl, rfl, rfl⟩
  logged := fun r message h => by
    refine h.apart rfl ⟨?_, rfl, rfl, rfl⟩
    exact (leads_log r.engine .debug message).events.trans (List.append_nil _)
  debounced := fun _ _ _ h => h.apart rfl ⟨rfl, rfl, rfl, rfl⟩

/-- A controller that has done nothing yet. -/
def fresh (config : Config) (formatters : FormatterSource) (bus : Bus CycleEvent) (files : Files) :
    Engine :=
  ⟨.make config formatters bus, files, []⟩

/-- Whatever is asked of a controller, whatever happens to its files, and whatever its classifier,
its formatter and its listeners do, its events are those of complete cycles one after the other,
each in agreement with what the cycle returned, and as many as it has counted. It is idle before
and after each of them. -/
theorem cycle_protocol (config : Config) (formatters : FormatterSource) (bus : Bus CycleEvent)
    (files : Files) (clock : Clock) (cwd : List String) (deeds : List Deed) :
    let start : Clock × Recorded := (clock, ⟨fresh config formatters bus files, []⟩)
    let world := deeds.foldl (Recorded.perform cwd) start
    Recorded.plain world =
        deeds.foldl (perform cwd) (clock, fresh config formatters bus files) ∧
      Protocol config cwd world.2 := by
  intro start world
  have begins : Protocol config cwd start.2 :=
    ⟨rfl, rfl, rfl, by simp [start, Recorded.runs], [], rfl, .nil⟩
  exact ⟨Recorded.plain_foldl_perform cwd start deeds,
    (lasting_protocol config cwd).foldl_perform begins deeds⟩

end Engine
end ThemeSheet
