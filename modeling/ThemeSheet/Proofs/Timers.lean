import Mathlib.Algebra.Order.Ring.Unbundled.Rat
import Mathlib.Data.List.Basic
import ThemeSheet.Clock

namespace ThemeSheet.Clock

/-- What is left of each timer: when it is due, and whether it is still to wake. -/
def outlook (clock : Clock) : List (Rat × Bool) :=
  clock.timers.map fun timer => (timer.due, timer.isLive)

@[simp] theorem length_outlook (clock : Clock) : clock.outlook.length = clock.timers.length := by
  simp [outlook]

@[simp] theorem outlook_start (clock : Clock) (delay : Rat) :
    (clock.start delay).outlook = clock.outlook ++ [(clock.now + delay, true)] := by
  simp [outlook, start, Timer.isLive]

/-- A timer that is stopped keeps its due time. -/
def stopped (left : Rat × Bool) : Rat × Bool :=
  (left.1, false)

theorem outlook_modify (clock : Clock) (number : Nat) (change : Timer → Timer)
    (due : ∀ timer, (change timer).due = timer.due) (dead : ∀ timer, (change timer).isLive = false) :
    ({ clock with timers := clock.timers.modify number change } : Clock).outlook =
      clock.outlook.modify number stopped := by
  apply List.ext_getElem?
  intro n
  simp only [outlook, List.getElem?_map, List.getElem?_modify]
  by_cases here : number = n
  · cases clock.timers[n]? <;> simp [here, stopped, due, dead]
  · simp [here]

@[simp] theorem outlook_cancel (clock : Clock) (number : Nat) :
    (clock.cancel number).outlook = clock.outlook.modify number stopped :=
  outlook_modify clock number _ (fun _ => rfl) fun _ => by simp [Timer.isLive]

@[simp] theorem outlook_markRan (clock : Clock) (number : Nat) :
    (clock.markRan number).outlook = clock.outlook.modify number stopped :=
  outlook_modify clock number _ (fun _ => rfl) fun _ => by simp [Timer.isLive]

theorem live_eq (clock : Clock) : clock.live = clock.outlook.countP (·.2) := by
  simp [live, outlook, List.countP_map, Function.comp_def]

/-- A timer that is not to wake is not changed by being stopped. -/
theorem modify_stopped_eq {outlook : List (Rat × Bool)} {number : Nat}
    (dead : ∀ due, outlook[number]? ≠ some (due, true)) :
    outlook.modify number stopped = outlook := by
  apply List.ext_getElem?
  intro n
  rw [List.getElem?_modify]
  by_cases here : number = n
  · subst here
    cases there : outlook[number]? with
    | none => simp
    | some left =>
      obtain ⟨due, live⟩ := left
      cases live with
      | false => simp [stopped]
      | true => exact absurd there (dead due)
  · simp [here]

theorem wakeAt_now (clock : Clock) (number : Nat) :
    (clock.wakeAt number).now = (clock.outlook[number]?).elim clock.now (·.1) := by
  simp only [wakeAt, outlook, List.getElem?_map]
  cases clock.timers[number]? <;> rfl

/-! The timer that wakes next. -/

theorem isDue_eq (clock : Clock) (target : Rat) : clock.isDue target = fun number =>
    (clock.outlook[number]?).any fun left => left.2 && left.1 ≤ target := by
  funext number
  rw [isDue, outlook, List.getElem?_map, Option.any_map]

theorem sooner_congr {clock clock' : Clock} (same : clock.outlook = clock'.outlook) :
    sooner clock.timers = sooner clock'.timers := by
  have due (n : Nat) : (clock.timers[n]?).map (·.due) = (clock'.timers[n]?).map (·.due) := by
    have := congrArg (fun o => (o[n]?).map Prod.fst) same
    simpa [outlook, Function.comp_def] using this
  funext first number
  cases first with
  | none => rfl
  | some first =>
    have before := due first
    have after := due number
    cases h₁ : clock.timers[first]? <;> cases h₂ : clock'.timers[first]? <;>
      cases h₃ : clock.timers[number]? <;> cases h₄ : clock'.timers[number]? <;>
      simp_all [sooner]

/-- Which timer wakes next depends on the outlook alone. -/
theorem next?_congr {clock clock' : Clock} (same : clock.outlook = clock'.outlook) (target : Rat) :
    clock.next? target = clock'.next? target := by
  have length : clock.timers.length = clock'.timers.length := by
    rw [← length_outlook, same, length_outlook]
  simp only [next?, isDue_eq, same, sooner_congr same, length]

theorem mem_of_sooner {timers : List Timer} {numbers : List Nat} {first : Option Nat} {number : Nat}
    (h : numbers.foldl (sooner timers) first = some number) :
    number ∈ numbers ∨ first = some number := by
  induction numbers generalizing first with
  | nil => exact .inr h
  | cons n rest ih =>
    rcases ih h with later | here
    · exact .inl (List.mem_cons_of_mem n later)
    · cases first with
      | none =>
        cases here
        exact .inl List.mem_cons_self
      | some first =>
        have chosen : sooner timers (some first) n = some n ∨
            sooner timers (some first) n = some first := by
          simp only [sooner]
          split
          · split
            · exact .inl rfl
            · exact .inr rfl
          · exact .inr rfl
        rcases chosen with later | earlier
        · rw [later] at here
          cases here
          exact .inl List.mem_cons_self
        · rw [earlier] at here
          exact .inr here

theorem sooner_ne_none {timers : List Timer} {numbers : List Nat} {first : Nat} :
    numbers.foldl (sooner timers) (some first) ≠ none := by
  induction numbers generalizing first with
  | nil => simp
  | cons n rest ih =>
    obtain ⟨next, chosen⟩ : ∃ next, sooner timers (some first) n = some next := by
      simp only [sooner]
      split
      · split
        · exact ⟨n, rfl⟩
        · exact ⟨first, rfl⟩
      · exact ⟨first, rfl⟩
    rw [List.foldl_cons, chosen]
    exact ih

/-- The timer that wakes next is live and due. -/
theorem of_next?_eq_some {clock : Clock} {target : Rat} {number : Nat}
    (h : clock.next? target = some number) :
    ∃ due, clock.outlook[number]? = some (due, true) ∧ due ≤ target := by
  rcases mem_of_sooner h with there | none
  · rw [List.mem_filter, isDue_eq] at there
    obtain ⟨⟨due, live⟩, found, isDue⟩ := (Option.any_eq_true ..).mp there.2
    simp only [Bool.and_eq_true, decide_eq_true_eq] at isDue
    obtain ⟨rfl, soon⟩ := isDue
    exact ⟨due, found, soon⟩
  · cases none

/-- Where no timer wakes, none that is live is due. -/
theorem of_next?_eq_none {clock : Clock} {target due : Rat} {number : Nat}
    (h : clock.next? target = none) (live : clock.outlook[number]? = some (due, true)) :
    target < due := by
  by_contra late
  have bound : number < clock.timers.length := by
    rw [← length_outlook]
    exact (List.getElem?_eq_some_iff.mp live).1
  have there : number ∈ (List.range clock.timers.length).filter (clock.isDue target) := by
    simp only [List.mem_filter, isDue_eq, live]
    exact ⟨List.mem_range.mpr bound, by simpa using late⟩
  rw [next?] at h
  cases due : (List.range clock.timers.length).filter (clock.isDue target) with
  | nil =>
    rw [due] at there
    cases there
  | cons first rest =>
    rw [due] at h
    exact sooner_ne_none h

/-! A clock on which one timer at most is waited for. -/

/-- The live timer, if there is one, is the one that is waited for. -/
def Awaits (clock : Clock) (pending : Option Nat) : Prop :=
  ∀ number, (∃ due, clock.outlook[number]? = some (due, true)) ↔ pending = some number

theorem Awaits.none_of_stopped {clock clock' : Clock} {number : Nat}
    (h : clock.Awaits (some number))
    (stops : clock'.outlook = clock.outlook.modify number stopped) : clock'.Awaits none := by
  intro n
  constructor
  · rintro ⟨due, live⟩
    rw [stops, List.getElem?_modify] at live
    by_cases here : number = n
    · cases there : clock.outlook[n]? <;> simp [here, there, stopped] at live
    · have := (h n).mp ⟨due, by simpa [here] using live⟩
      exact absurd (Option.some.inj this) here
  · intro none
    cases none

theorem Awaits.start {clock : Clock} (h : clock.Awaits none) (delay : Rat) :
    (clock.start delay).Awaits (some clock.timers.length) := by
  intro n
  rw [outlook_start]
  constructor
  · rintro ⟨due, live⟩
    rcases lt_trichotomy n clock.outlook.length with before | rfl | after
    · rw [List.getElem?_append_left before] at live
      cases (h n).mp ⟨due, live⟩
    · rw [length_outlook]
    · rw [List.getElem?_eq_none (by simp at after ⊢; omega)] at live
      cases live
  · intro here
    cases here
    refine ⟨clock.now + delay, ?_⟩
    rw [← length_outlook]
    exact List.getElem?_concat_length

theorem Awaits.live {clock : Clock} {pending : Option Nat} (h : clock.Awaits pending) :
    clock.live = if pending.isSome then 1 else 0 := by
  have dead {number : Nat} {left : Rat × Bool} (found : clock.outlook[number]? = some left)
      (other : pending ≠ some number) : left.2 = false := by
    obtain ⟨due, live⟩ := left
    cases live with
    | false => rfl
    | true => exact absurd ((h number).mp ⟨due, found⟩) other
  rw [live_eq]
  cases pending with
  | none =>
    refine List.countP_eq_zero.mpr fun left there => ?_
    obtain ⟨number, found⟩ := List.getElem?_of_mem there
    simp [dead found]
  | some number =>
    obtain ⟨due, found⟩ := (h number).mpr rfl
    obtain ⟨bound, here⟩ := List.getElem?_eq_some_iff.mp found
    have split : clock.outlook =
        clock.outlook.take number ++ (due, true) :: clock.outlook.drop (number + 1) := by
      rw [← here, List.getElem_cons_drop, List.take_append_drop]
    rw [split, List.countP_append, List.countP_cons]
    have before : (clock.outlook.take number).countP (·.2) = 0 := by
      refine List.countP_eq_zero.mpr fun left there => ?_
      obtain ⟨n, found⟩ := List.getElem?_of_mem there
      rw [List.getElem?_take] at found
      split at found
      · simp [dead found (by simp; omega)]
      · cases found
    have after : (clock.outlook.drop (number + 1)).countP (·.2) = 0 := by
      refine List.countP_eq_zero.mpr fun left there => ?_
      obtain ⟨n, found⟩ := List.getElem?_of_mem there
      rw [List.getElem?_drop] at found
      simp [dead found (by simp; omega)]
    simp [before, after]

/-! Looking at a part of what the timers act on. -/

/-- If every wake-up can be followed through a view of the state, so can the passing of time. -/
theorem advanceTo_map {σ τ : Type} (view : σ → τ) {wake : Nat → Clock × σ → Clock × σ}
    {wake' : Nat → Clock × τ → Clock × τ}
    (follows : ∀ number clock state,
      wake' number (clock, view state) = Prod.map id view (wake number (clock, state)))
    (target : Rat) (fuel : Nat) (clock : Clock) (state : σ) :
    advanceTo wake' target fuel (clock, view state) =
      Prod.map id view (advanceTo wake target fuel (clock, state)) := by
  induction fuel generalizing clock state with
  | zero => rfl
  | succ fuel ih =>
    rw [advanceTo, advanceTo]
    cases clock.next? target with
    | none => rfl
    | some number =>
      simp only [follows]
      exact ih ..

/-- What every wake-up keeps, the passing of time keeps. -/
theorem advanceTo_keeps {σ : Type} {wake : Nat → Clock × σ → Clock × σ} (keeps : σ → Prop)
    (step : ∀ number clock state, keeps state → keeps (wake number (clock, state)).2)
    (target : Rat) (fuel : Nat) {clock : Clock} {state : σ} (h : keeps state) :
    keeps (advanceTo wake target fuel (clock, state)).2 := by
  induction fuel generalizing clock state with
  | zero => exact h
  | succ fuel ih =>
    rw [advanceTo]
    cases clock.next? target with
    | none => exact h
    | some number => exact ih (step number _ state h)

end ThemeSheet.Clock
