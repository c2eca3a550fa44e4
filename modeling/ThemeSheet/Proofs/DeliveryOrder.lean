import Mathlib.Data.List.Basic
import ThemeSheet.Cycle.Event
import ThemeSheet.Proofs.Deliveries

/-! The order in which listeners receive an event. It is the order in which they were registered,
but that those for all events come before those for its type. -/

namespace ThemeSheet

namespace Registration

variable {ε : Type}

/-- The registrations that an event of a type is for, in the order made. -/
def receiving (typeName : String) (registrations : List (Registration ε)) :
    List (Registration ε) :=
  registrations.filter fun registration =>
    registration.1 == none || registration.1 == some typeName

/-- The same registrations, those for all events in front. -/
def generalFirst (registrations : List (Registration ε)) : List (Registration ε) :=
  registrations.filter (·.1.isNone) ++ registrations.filter (·.1.isSome)

/-- Nobody registers for all events once somebody is registered for a type. -/
def GeneralBefore (registrations : List (Registration ε)) : Prop :=
  registrations.Pairwise fun earlier later => later.1 = none → earlier.1 = none

theorem map_generalFirst_receiving (typeName : String) (registrations : List (Registration ε)) :
    (generalFirst (receiving typeName registrations)).map (·.2) =
      forAll registrations ++ forType typeName registrations := by
  rw [generalFirst, receiving, List.map_append, List.filter_filter, List.filter_filter, forAll,
    forType]
  congr 3 <;> funext registration <;> cases registration.1 <;> simp

theorem perm_generalFirst (registrations : List (Registration ε)) :
    (generalFirst registrations).Perm registrations := by
  simpa [generalFirst] using List.filter_append_perm (·.1.isNone) registrations

/-- Some of the registrations are rearranged as they are among all. -/
theorem sublist_generalFirst {some all : List (Registration ε)} (h : some.Sublist all) :
    (generalFirst some).Sublist (generalFirst all) :=
  (h.filter _).append (h.filter _)

theorem generalFirst_pair (earlier later : Registration ε) :
    generalFirst [earlier, later] =
      if earlier.1 ≠ none ∧ later.1 = none then [later, earlier] else [earlier, later] := by
  cases first : earlier.1 <;> cases second : later.1 <;> simp [generalFirst, first, second]

theorem generalFirst_eq_iff (registrations : List (Registration ε)) :
    generalFirst registrations = registrations ↔ GeneralBefore registrations := by
  constructor
  · intro same
    rw [GeneralBefore, ← same, generalFirst, List.pairwise_append]
    refine ⟨List.pairwise_of_forall_mem_list ?_, List.pairwise_of_forall_mem_list ?_, ?_⟩
    · intro earlier mem _ _ _
      exact Option.isNone_iff_eq_none.mp (List.mem_filter.mp mem).2
    · intro _ _ later mem general
      simp [general] at mem
    · intro earlier mem _ _ _
      exact Option.isNone_iff_eq_none.mp (List.mem_filter.mp mem).2
  · intro before
    induction registrations with
    | nil => rfl
    | cons registration rest ih =>
      obtain ⟨first, later⟩ := List.pairwise_cons.mp before
      have kept := ih later
      rw [generalFirst] at kept ⊢
      cases general : registration.1 with
      | none => simpa [general] using kept
      | some typeName =>
        -- Behind a registration for a type there are only such.
        have none : rest.filter (·.1.isNone) = [] := by
          apply List.filter_eq_nil_iff.mpr
          intro other mem isNone
          have := first other mem (Option.isNone_iff_eq_none.mp isNone)
          rw [general] at this
          cases this
        rw [none, List.nil_append] at kept
        rw [List.filter_cons_of_neg (by simp [general]), none,
          List.filter_cons_of_pos (by simp [general]), kept, List.nil_append]

end Registration

namespace Bus

open Registration (receiving generalFirst GeneralBefore)

variable {ε : Type} [Typed ε]

/-- After any calls, an event is handed to all that are registered for it, those for all events in
front. Of two registrations the earlier is therefore served first, unless it is for the type and the
later one for all events, and then it is served last; so the order is that of the registrations
exactly if nobody registered for all events after somebody had registered for the type. -/
theorem emit_order (calls : List (Call ε)) (event : ε) :
    let made := receiving (Typed.typeName event) ((empty : Bus ε).registeredAll calls)
    let served := generalFirst made
    (((empty : Bus ε).performAll calls).emit event).reached = served.map (·.2) ∧
      served.Perm made ∧
      (∀ earlier later, [earlier, later].Sublist made →
        (if earlier.1 ≠ none ∧ later.1 = none then [later, earlier]
          else [earlier, later]).Sublist served) ∧
      (served = made ↔ GeneralBefore made) := by
  intro made served
  have knows : ((empty : Bus ε).performAll calls).Knows (empty.registeredAll calls) := by
    simpa using knows_empty.performAll calls
  refine ⟨?_, Registration.perm_generalFirst made, ?_, Registration.generalFirst_eq_iff made⟩
  · rw [(knows.emit event).1]
    exact (Registration.map_generalFirst_receiving ..).symm
  · intro earlier later pair
    rw [← Registration.generalFirst_pair]
    exact Registration.sublist_generalFirst pair

/-- Somebody registers for all events after somebody has registered for a type, and is served
first. -/
theorem not_emit_in_order :
    ¬ ∀ (calls : List (Call CycleEvent)) (event : CycleEvent),
      let bus : Bus CycleEvent := empty
      ((bus.performAll calls).emit event).reached =
        (receiving (Typed.typeName event) (bus.registeredAll calls)).map (·.2) := by
  intro claim
  have labels := congrArg (List.map Listener.label)
    (claim [.subscribe "RegenerationStarted" (.plain "first"), .onAll (.plain "second")]
      (.started ⟨0, ["x"]⟩ "manual"))
  have differ : ["second", "first"] ≠ ["first", "second"] := by decide
  exact differ labels

end Bus
end ThemeSheet
