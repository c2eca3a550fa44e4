import Mathlib.Algebra.Order.Ring.Unbundled.Rat
import ThemeSheet.Debouncer

/-! The histories of a debouncer: what may happen to it, and when the callback runs in such a
history. -/

namespace ThemeSheet.Debounced

/-- What happens to a debouncer. Timers are numbered as they are started, and each trigger starts
one. -/
inductive Happening
  | asked (number : Nat)
  | dropped
  /-- The clock has come to a new time. -/
  | moved
  /-- The callback begins to run. -/
  | ran (number : Nat)
deriving DecidableEq

/-- Something that happens, the time at which it does, and how things stand right after it: the
number of timers that are neither cancelled nor run, and whether a run is pending. -/
structure Moment where
  what : Happening
  time : Rat
  live : Nat
  pending : Bool
deriving DecidableEq

/-- Whether the clock comes to `due` before anything else is asked for or dropped. -/
def isReached (due : Rat) : List Moment → Bool
  | [] => false
  | moment :: rest =>
    match moment.what with
    | .asked _ => false
    | .dropped => false
    | .moved => due ≤ moment.time || isReached due rest
    | .ran _ => isReached due rest

/-- The times at which the callback ran for a timer. -/
def runsOf (number : Nat) (moments : List Moment) : List Rat :=
  moments.filterMap fun moment => if moment.what = .ran number then some moment.time else none

/-- The numbers of the timers that were asked for, in order. -/
def askedNumbers (moments : List Moment) : List Nat :=
  moments.filterMap fun moment =>
    match moment.what with
    | .asked number => some number
    | _ => none

/-- One timer at most is live, and a run is pending if there is one. -/
def Moment.Single (moment : Moment) : Prop :=
  moment.live ≤ 1 ∧ (moment.pending = true ↔ moment.live = 1)

/-- The callback runs once for each trigger that is still the last one when the clock comes to its
due time, at that time, and it runs for nothing else. -/
structure Punctual (delay : Rat) (moments : List Moment) : Prop where
  forward : moments.Pairwise fun earlier later => earlier.time ≤ later.time
  numbered : askedNumbers moments = List.range (askedNumbers moments).length
  once : ∀ past asked rest number, moments = past ++ asked :: rest →
    asked.what = .asked number → runsOf number past = [] ∧
      runsOf number rest =
        if isReached (asked.time + delay) rest then [asked.time + delay] else []
  only : ∀ number, runsOf number moments ≠ [] → number ∈ askedNumbers moments

/-- A moment after which at most one run is waited for: the number of its timer and its due time. -/
def Moment.of (what : Happening) (time : Rat) (waiting : Option (Nat × Rat)) : Moment :=
  ⟨what, time, if waiting.isSome then 1 else 0, waiting.isSome⟩

/-- The histories that there can be, each with the time to which it leads, with the number of timers
started, and with the run that is then waited for. -/
inductive Unfolds (delay : Rat) : List Moment → Rat → Nat → Option (Nat × Rat) → Prop
  | start (now : Rat) : Unfolds delay [] now 0 none
  | ask {moments : List Moment} {now : Rat} {count : Nat} {waiting : Option (Nat × Rat)}
      (before : Unfolds delay moments now count waiting) :
      Unfolds delay (moments ++ [.of (.asked count) now (some (count, now + delay))]) now
        (count + 1) (some (count, now + delay))
  | drop {moments : List Moment} {now : Rat} {count : Nat} {waiting : Option (Nat × Rat)}
      (before : Unfolds delay moments now count waiting) :
      Unfolds delay (moments ++ [.of .dropped now none]) now count none
  | move {moments : List Moment} {now : Rat} {count : Nat} {waiting : Option (Nat × Rat)}
      (before : Unfolds delay moments now count waiting) (time : Rat) (later : now ≤ time)
      (early : ∀ number due, waiting = some (number, due) → time < due) :
      Unfolds delay (moments ++ [.of .moved time waiting]) time count waiting
  | fire {moments : List Moment} {now due : Rat} {count number : Nat}
      (before : Unfolds delay moments now count (some (number, due))) (later : now ≤ due) :
      Unfolds delay (moments ++ [.of .moved due (some (number, due)), .of (.ran number) due none])
        due count none

/-- Whether nothing is asked for or dropped, and the clock does not come to `due`. -/
def isOpen (due : Rat) : List Moment → Bool
  | [] => true
  | moment :: rest =>
    match moment.what with
    | .asked _ => false
    | .dropped => false
    | .moved => moment.time < due && isOpen due rest
    | .ran _ => isOpen due rest

theorem isOpen_append (due : Rat) (moments more : List Moment) :
    isOpen due (moments ++ more) = (isOpen due moments && isOpen due more) := by
  induction moments with
  | nil => simp [isOpen]
  | cons moment rest ih =>
    obtain ⟨what, time, live, pending⟩ := moment
    cases what <;> simp [isOpen, ih, Bool.and_assoc]

theorem isReached_append (due : Rat) (moments more : List Moment) :
    isReached due (moments ++ more) =
      (isReached due moments || isOpen due moments && isReached due more) := by
  induction moments with
  | nil => simp [isReached, isOpen]
  | cons moment rest ih =>
    obtain ⟨what, time, live, pending⟩ := moment
    cases what with
    | moved =>
      by_cases late : due ≤ time
      · simp [isReached, late]
      · simp [isReached, isOpen, ih, late, not_le.mp late]
    | asked => simp [isReached, isOpen]
    | dropped => simp [isReached, isOpen]
    | ran => simp [isReached, isOpen, ih]

theorem not_isReached_of_isOpen {due : Rat} {moments : List Moment}
    (h : isOpen due moments = true) : isReached due moments = false := by
  induction moments with
  | nil => rfl
  | cons moment rest ih =>
    obtain ⟨what, time, live, pending⟩ := moment
    cases what <;> simp_all [isReached, isOpen]

theorem runsOf_append (number : Nat) (moments more : List Moment) :
    runsOf number (moments ++ more) = runsOf number moments ++ runsOf number more :=
  List.filterMap_append

theorem askedNumbers_append (moments more : List Moment) :
    askedNumbers (moments ++ more) = askedNumbers moments ++ askedNumbers more :=
  List.filterMap_append

/-- The last moment of a history is the one looked at, or it comes after that. -/
theorem split_concat {moments past rest : List Moment} {last asked : Moment}
    (h : moments ++ [last] = past ++ asked :: rest) :
    (past = moments ∧ asked = last ∧ rest = []) ∨
      ∃ between, rest = between ++ [last] ∧ moments = past ++ asked :: between := by
  rcases List.eq_nil_or_concat rest with rfl | ⟨between, final, rfl⟩
  · obtain ⟨rfl, same⟩ := List.append_inj' h rfl
    cases same
    exact .inl ⟨rfl, rfl, rfl⟩
  · rw [List.concat_eq_append, ← List.cons_append, ← List.append_assoc] at h
    obtain ⟨rfl, same⟩ := List.append_inj' h rfl
    cases same
    exact .inr ⟨between, by simp, rfl⟩

namespace Unfolds

variable {delay now : Rat} {moments : List Moment} {count : Nat} {waiting : Option (Nat × Rat)}

theorem single (h : Unfolds delay moments now count waiting) :
    ∀ moment ∈ moments, moment.Single := by
  have of (what : Happening) (time : Rat) (waiting : Option (Nat × Rat)) :
      (Moment.of what time waiting).Single := by
    cases waiting <;> simp [Moment.of, Moment.Single]
  induction h with
  | start => simp
  | ask _ ih => simpa [or_imp, forall_and, of] using ih
  | drop _ ih => simpa [or_imp, forall_and, of] using ih
  | move _ _ _ _ ih => simpa [or_imp, forall_and, of] using ih
  | fire _ _ ih => simpa [or_imp, forall_and, of] using ih

theorem time_le (h : Unfolds delay moments now count waiting) :
    ∀ moment ∈ moments, moment.time ≤ now := by
  induction h with
  | start => simp
  | ask _ ih => simpa [or_imp, forall_and, Moment.of] using ih
  | drop _ ih => simpa [or_imp, forall_and, Moment.of] using ih
  | move _ _ later _ ih =>
    simp only [List.mem_append, List.mem_singleton, or_imp, forall_and, forall_eq]
    exact ⟨fun moment there => (ih moment there).trans later, le_refl _⟩
  | fire _ later ih =>
    simp only [List.mem_append, List.mem_cons, List.not_mem_nil, or_false, or_imp, forall_and,
      forall_eq]
    exact ⟨fun moment there => (ih moment there).trans later, le_refl _, le_refl _⟩

theorem forward (h : Unfolds delay moments now count waiting) :
    moments.Pairwise fun earlier later => earlier.time ≤ later.time := by
  induction h with
  | start => exact .nil
  | ask before ih =>
    exact List.pairwise_append.mpr ⟨ih, by simp, by simpa [Moment.of] using before.time_le⟩
  | drop before ih =>
    exact List.pairwise_append.mpr ⟨ih, by simp, by simpa [Moment.of] using before.time_le⟩
  | move before time later _ ih =>
    refine List.pairwise_append.mpr ⟨ih, by simp, fun moment there last isLast => ?_⟩
    cases List.mem_singleton.mp isLast
    exact (before.time_le moment there).trans later
  | fire before later ih =>
    refine List.pairwise_append.mpr ⟨ih, by simp [Moment.of], fun moment there last isLast => ?_⟩
    have passed := (before.time_le moment there).trans later
    simp only [List.mem_cons, List.not_mem_nil, or_false] at isLast
    rcases isLast with rfl | rfl
    · exact passed
    · exact passed

theorem numbered (h : Unfolds delay moments now count waiting) :
    askedNumbers moments = List.range count := by
  induction h with
  | start => rfl
  | ask _ ih => rw [askedNumbers_append, ih, List.range_succ]; rfl
  | drop _ ih => rw [askedNumbers_append, ih]; exact List.append_nil _
  | move _ _ _ _ ih => rw [askedNumbers_append, ih]; exact List.append_nil _
  | fire _ _ ih => rw [askedNumbers_append, ih]; exact List.append_nil _

/-- Only a timer that was started is waited for, and only for such a one there are runs. -/
theorem started (h : Unfolds delay moments now count waiting) :
    (∀ number due, waiting = some (number, due) → number < count) ∧
      ∀ number, runsOf number moments ≠ [] → number < count := by
  induction h with
  | start => simp [runsOf]
  | ask _ ih =>
    refine ⟨by simp, fun number runs => ?_⟩
    rw [runsOf_append] at runs
    have := ih.2 number (by simpa [runsOf, Moment.of] using runs)
    omega
  | drop _ ih =>
    refine ⟨by simp, fun number runs => ?_⟩
    rw [runsOf_append] at runs
    exact ih.2 number (by simpa [runsOf, Moment.of] using runs)
  | move _ _ _ _ ih =>
    refine ⟨ih.1, fun number runs => ?_⟩
    rw [runsOf_append] at runs
    exact ih.2 number (by simpa [runsOf, Moment.of] using runs)
  | @fire _ _ due _ fired _ _ ih =>
    refine ⟨by simp, fun number runs => ?_⟩
    by_cases here : number = fired
    · exact here ▸ ih.1 fired due rfl
    · rw [runsOf_append] at runs
      exact ih.2 number (by simpa [runsOf, Moment.of, Ne.symm here] using runs)

theorem mem_askedNumbers {past rest : List Moment} {asked : Moment} {number : Nat}
    (is : asked.what = .asked number) : number ∈ askedNumbers (past ++ asked :: rest) := by
  rw [askedNumbers]
  exact List.mem_filterMap.mpr ⟨asked, by simp, by simp [is]⟩

end Unfolds

/-- How a trigger stands whose run is due at a time: it has had that run if the clock came there with
nothing between, and it is waited for as long as that can still be. -/
structure Stands (number : Nat) (due : Rat) (rest : List Moment)
    (waiting : Option (Nat × Rat)) : Prop where
  runs : runsOf number rest = if isReached due rest then [due] else []
  waits : ∀ time, waiting = some (number, time) ↔ time = due ∧ isOpen due rest = true

theorem Stands.append {number : Nat} {due : Rat} {rest more : List Moment}
    {waiting waiting' : Option (Nat × Rat)} (h : Stands number due rest waiting)
    (runs : runsOf number more = if isOpen due rest && isReached due more then [due] else [])
    (waits : ∀ time, waiting' = some (number, time) ↔
      waiting = some (number, time) ∧ isOpen due more = true) :
    Stands number due (rest ++ more) waiting' := by
  constructor
  · rw [runsOf_append, isReached_append, h.runs, runs]
    cases open_ : isOpen due rest with
    | true => simp [not_isReached_of_isOpen open_]
    | false => simp
  · intro time
    rw [waits, h.waits, isOpen_append, Bool.and_eq_true, and_assoc]

namespace Unfolds

variable {delay now : Rat} {moments : List Moment} {count : Nat} {waiting : Option (Nat × Rat)}

theorem stands (h : Unfolds delay moments now count waiting) {past rest : List Moment}
    {asked : Moment} {number : Nat} (split : moments = past ++ asked :: rest)
    (is : asked.what = .asked number) :
    runsOf number past = [] ∧ Stands number (asked.time + delay) rest waiting := by
  induction h generalizing rest with
  | start => simp at split
  | @ask moments now count waiting before ih =>
    rcases split_concat split with ⟨rfl, rfl, rfl⟩ | ⟨between, rfl, earlier⟩
    · cases is
      refine ⟨?_, rfl, fun time => ?_⟩
      · by_contra runs
        exact lt_irrefl _ (before.started.2 _ runs)
      · simp [isOpen, Moment.of, eq_comm]
    · have old : number < count := by
        rw [← List.mem_range, ← before.numbered, earlier]
        exact mem_askedNumbers is
      obtain ⟨unborn, stands⟩ := ih earlier
      refine ⟨unborn, stands.append ?_ fun time => ?_⟩
      · simp [runsOf, isReached, Moment.of]
      · simp [isOpen, Moment.of, old.ne']
  | @drop moments now count waiting before ih =>
    rcases split_concat split with ⟨-, rfl, -⟩ | ⟨between, rfl, earlier⟩
    · cases is
    · obtain ⟨unborn, stands⟩ := ih earlier
      refine ⟨unborn, stands.append ?_ fun time => ?_⟩
      · simp [runsOf, isReached, Moment.of]
      · simp [isOpen, Moment.of]
  | @move moments now count waiting before time later early ih =>
    rcases split_concat split with ⟨-, rfl, -⟩ | ⟨between, rfl, earlier⟩
    · cases is
    · obtain ⟨unborn, stands⟩ := ih earlier
      have soon (open_ : isOpen (asked.time + delay) between = true) :
          time < asked.time + delay :=
        early number _ ((stands.waits _).mpr ⟨rfl, open_⟩)
      refine ⟨unborn, stands.append ?_ fun due => ?_⟩
      · cases open_ : isOpen (asked.time + delay) between with
        | true => simp [runsOf, isReached, Moment.of, not_le.mpr (soon open_)]
        | false => simp [runsOf, Moment.of]
      · refine ⟨fun here => ⟨here, ?_⟩, And.left⟩
        change (decide (time < asked.time + delay) && true) = true
        simpa using soon ((stands.waits due).mp here).2
  | @fire moments now due count fired before later ih =>
    -- A run adds two moments, so the trigger is looked for behind the last and then the other.
    have two : (moments ++ [.of .moved due (some (fired, due))]) ++ [.of (.ran fired) due none] =
        past ++ asked :: rest := by
      rw [← split]
      simp
    rcases split_concat two with ⟨-, rfl, -⟩ | ⟨middle, rfl, first⟩
    · cases is
    rcases split_concat first with ⟨-, rfl, -⟩ | ⟨between, rfl, earlier⟩
    · cases is
    obtain ⟨unborn, stands⟩ := ih earlier
    rw [List.append_assoc]
    by_cases here : fired = number
    · subst here
      obtain ⟨rfl, open_⟩ := (stands.waits due).mp rfl
      refine ⟨unborn, stands.append ?_ fun time => ?_⟩
      · simp [runsOf, isReached, Moment.of, open_]
      · simp [isOpen, Moment.of]
    · have closed : isOpen (asked.time + delay) between = false := by
        by_contra open_
        have := (stands.waits _).mpr ⟨rfl, Bool.not_eq_false _ ▸ open_⟩
        exact here (Prod.mk.inj (Option.some.inj this)).1
      refine ⟨unborn, stands.append ?_ fun time => ?_⟩
      · simp [runsOf, Moment.of, here, closed]
      · simp [here]

/-- Histories are as they should be. -/
theorem punctual (h : Unfolds delay moments now count waiting) : Punctual delay moments where
  forward := h.forward
  numbered := by rw [h.numbered, List.length_range]
  once := fun _ _ _ _ split is =>
    ⟨(h.stands split is).1, (h.stands split is).2.runs⟩
  only := fun number runs => by
    rw [h.numbered]
    exact List.mem_range.mpr (h.started.2 number runs)

end Unfolds
end ThemeSheet.Debounced
