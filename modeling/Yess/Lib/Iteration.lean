import Mathlib.Logic.Function.Iterate

/-!
# Iterating a step until a state halts

A deterministic step is applied again and again; a state may be a halting one.
`RunsFor n` says that the first `n` steps start in states that are not halting,
and `HaltsAt n` that the next state is the first halting one.  Results about
whole runs come from one step through `RunsFor.induction`.
-/

namespace Yess.Lib.Iteration

variable {State : Type*} {step : State → State} {Halting : State → Prop} {start : State}

/-- The first `count` steps all start in states that are not halting. -/
def RunsFor (step : State → State) (Halting : State → Prop) (start : State) (count : Nat) : Prop :=
  ∀ earlier, earlier < count → ¬ Halting (step^[earlier] start)

/-- The run meets its first halting state after `count` steps. -/
def HaltsAt (step : State → State) (Halting : State → Prop) (start : State) (count : Nat) : Prop :=
  RunsFor step Halting start count ∧ Halting (step^[count] start)

instance [DecidablePred Halting] (count : Nat) : Decidable (RunsFor step Halting start count) :=
  inferInstanceAs (Decidable (∀ earlier, earlier < count → ¬ Halting (step^[earlier] start)))

instance [DecidablePred Halting] (count : Nat) : Decidable (HaltsAt step Halting start count) :=
  inferInstanceAs (Decidable (_ ∧ _))

theorem RunsFor.zero : RunsFor step Halting start 0 :=
  fun _ below => absurd below (Nat.not_lt_zero _)

theorem RunsFor.of_le {count fewer : Nat} (runs : RunsFor step Halting start count)
    (le : fewer ≤ count) : RunsFor step Halting start fewer :=
  fun earlier below => runs earlier (Nat.lt_of_lt_of_le below le)

theorem RunsFor.succ {count : Nat} (runs : RunsFor step Halting start count)
    (running : ¬ Halting (step^[count] start)) : RunsFor step Halting start (count + 1) := by
  intro earlier below
  rcases Nat.lt_succ_iff_lt_or_eq.mp below with lower | rfl
  · exact runs earlier lower
  · exact running

/-- What holds at the start and is kept by every step of the run holds along it. -/
theorem RunsFor.induction {Holds : Nat → State → Prop} (base : Holds 0 start)
    (kept : ∀ count state, Holds count state → ¬ Halting state → Holds (count + 1) (step state))
    {count : Nat} (runs : RunsFor step Halting start count) : Holds count (step^[count] start) := by
  induction count with
  | zero => exact base
  | succ count ih =>
      rw [Function.iterate_succ_apply']
      exact kept count _ (ih (runs.of_le (Nat.le_succ count))) (runs count (Nat.lt_succ_self count))

theorem HaltsAt.unique {first second : Nat} (one : HaltsAt step Halting start first)
    (other : HaltsAt step Halting start second) : first = second := by
  rcases Nat.lt_trichotomy first second with below | same | above
  · exact absurd one.2 (other.1 first below)
  · exact same
  · exact absurd other.2 (one.1 second above)

/-- A halting run is no longer running past its halting state. -/
theorem HaltsAt.le_of_runsFor {count reached : Nat} (halts : HaltsAt step Halting start count)
    (runs : RunsFor step Halting start reached) : reached ≤ count := by
  by_contra beyond
  exact runs count (Nat.lt_of_not_le beyond) halts.2

end Yess.Lib.Iteration
