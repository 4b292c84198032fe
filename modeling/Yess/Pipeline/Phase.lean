import Yess.Pipeline.Front
import Yess.Exceptions

/-!
# Whole runs

The phases of a run: it follows the sequential machine until the stopping
instruction enters E, and then takes that instruction through M to W.  Each
phase knows the cycle it belongs to, so that the induction over a run also
counts its cycles.
-/

namespace Yess

open Lib.Iteration Lib.Schedule

/-- The cycle in which instruction number `index` is in E; the first instruction
is fetched in cycle `0`. -/
def entryTime (memory : Memory) (index : Nat) : Nat := entry 2 (gap memory) index

theorem entryTime_succ (memory : Memory) (index : Nat) :
    entryTime memory (index + 1) = entryTime memory index + 1 + gap memory index := rfl

theorem entryTime_strictMono (memory : Memory) : StrictMono (entryTime memory) :=
  entry_strictMono

/-- No instruction is late: two cycles after E it has accessed memory, one cycle
after E it has been executed. -/
structure Timely (memory : Memory) (time stored executed : Nat) : Prop where
  stored_of_le : ∀ index, entryTime memory index + 2 ≤ time → index < stored
  executed_of_le : ∀ index, entryTime memory index + 1 ≤ time → index < executed

/-- Where a run stands after `time` cycles.
`running`: it follows the sequential machine.
`stopE`, `stopM`, `stopW`: the stopping instruction is in E, in M, in W. -/
inductive Phase (memory : Memory) (time : Nat) (t : Traced) : Prop where
  | running {retired stored executed issued pending : Nat}
      (follows : Follows memory t retired stored executed issued)
      (front : Front memory t stored executed issued pending)
      (due : time + 1 + pending = entryTime memory issued)
      (timely : Timely memory time stored executed)
  | stopE {retired stored last : Nat} (rear : Rear memory t retired stored last)
      (issue : Issued memory t last (last + 1)) (stops : SeqStopsAt memory last)
      (due : time = entryTime memory last)
  | stopM {retired last : Nat} (rear : Rear memory t retired last (last + 1))
      (CC : t.state.CC = (seqAt memory last).executed.CC) (stops : SeqStopsAt memory last)
      (due : time = entryTime memory last + 1)
  | stopW {last : Nat} (rear : Rear memory t last (last + 1) (last + 1))
      (CC : t.state.CC = (seqAt memory last).executed.CC) (stops : SeqStopsAt memory last)
      (due : time = entryTime memory last + 2)

theorem Phase.start (u : Undetermined) (memory : Memory) :
    Phase memory 0 (Traced.start u memory) := by
  have registers : Agree (setupyess u memory).registers (seqAt memory 0).registers := by
    intro place
    have bound := place.isLt
    refine if_pos ⟨Int.natCast_nonneg _, ?_⟩
    simp only [regSize]
    omega
  have rear : Rear memory (Traced.start u memory) 0 0 0 :=
    ⟨Or.inl rfl, Or.inl rfl, rfl, rfl, rfl, rfl, registers, rfl, rfl⟩
  refine .running ⟨rear, ⟨Or.inl rfl, rfl, rfl, rfl⟩, RunsFor.zero⟩
    (.fill rfl rfl rfl nofun rfl) rfl ⟨?_, ?_⟩
  · intro index late
    omega
  · intro index late
    omega

variable {memory : Memory} {t : Traced}

/-- The instruction in M stops the machine: it reaches W with its status, and what
was in E becomes a bubble. -/
theorem Rear.cycle_stops (well : WellBehaved memory) {retired last : Nat}
    (rear : Rear memory t retired last (last + 1)) (stops : SeqStopsAt memory last) :
    Rear memory t.cycle last (last + 1) (last + 1) := by
  have running := rear.running stops.1
  have after : t.cycle.state = _ := cycle_running running
  have access := rear.access
  have M := rear.M
  rw [slot_full] at access M
  have stat : t.state.access.stat = (seqAt memory last).status := by
    rw [access]
    exact SeqState.accessed_stat_eq_status (well.bytes last stops.1)
  have exceptional : t.state.access.stat.exceptional = true := by
    rw [Stat.exceptional_eq_true_iff, stat]
    exact stops.2
  have bubbled : bubbleM t.state.forwarded = true := by
    rw [bubbleM_eq]
    change (t.state.access.stat.exceptional || _) = true
    rw [exceptional, Bool.true_or]
  have W : t.cycle.state.W = (seqAt memory last).result := by
    rw [cycle_W running, stat, access, M]
    rfl
  refine ⟨Or.inr rfl, Or.inl rfl, ?_, ?_, ?_, ?_, ?_, ?_, ?_⟩
  · rw [W, slot_full]
  · rw [after, slot_empty]
    exact if_pos exceptional
  · rw [Traced.occupied_running running]
    exact rear.M_occupied
  · rw [Traced.occupied_running running, decide_eq_false (Nat.lt_irrefl _)]
    change (if bubbleM t.state.forwarded || _ then false else _) = false
    rw [bubbled, Bool.true_or, if_pos rfl]
  · rw [after]
    exact rear.written
  · rw [after]
    exact rear.access_memory
  · rw [Traced.committed_running running, W, rear.M_occupied, rear.committed]
    simp [List.range_succ]

/-- One cycle takes a phase to the next one. -/
theorem Phase.cycle (well : WellBehaved memory) {time : Nat} (phase : Phase memory time t)
    (goesOn : ¬ Stopping t.state) : Phase memory (time + 1) t.cycle := by
  cases phase with
  | @running retired stored executed issued pending follows front due timely =>
      have timelyAfter : Timely memory (time + 1) executed issued := by
        constructor
        · intro index late
          exact timely.executed_of_le index (by omega)
        · intro index late
          exact (entryTime_strictMono memory).lt_iff_lt.mp (by omega)
      cases pending with
      | succ pending =>
          obtain ⟨next, front⟩ := front.wait well follows
          exact .running next front (by omega) timelyAfter
      | zero =>
          by_cases stops : (seqAt memory issued).Stops
          · obtain ⟨rear, issue⟩ := follows.enter well front.ready_of_zero
            exact .stopE rear issue ⟨follows.reached, stops⟩ due
          · obtain ⟨next, front⟩ := follows.advance well front.ready_of_zero stops
            refine .running next front ?_ timelyAfter
            rw [entryTime_succ]
            omega
  | stopE rear issue stops due =>
      obtain ⟨rear, CC⟩ := rear.cycle well issue stops.1
      refine .stopM rear ?_ stops (by omega)
      rw [CC, seqAt_succ]
      rfl
  | @stopM retired last rear CC stops due =>
      have next := rear.cycle_stops well stops
      have stopping : Stopping (Yess.cycle t.state) := by
        change t.cycle.state.W.stat ≠ .saok
        rw [next.W, slot_full]
        exact stops.2
      refine .stopW next ?_ stops (by omega)
      rw [← CC]
      exact (frozen_before goesOn stopping).2.2
  | @stopW last rear CC stops due =>
      refine absurd ?_ goesOn
      unfold Stopping
      rw [rear.W, slot_full]
      exact stops.2

/-- The traced run of a program. -/
def traceAt (u : Undetermined) (memory : Memory) (count : Nat) : Traced :=
  Traced.cycle^[count] (Traced.start u memory)

theorem traceAt_state (u : Undetermined) (memory : Memory) (count : Nat) :
    (traceAt u memory count).state = cycle^[count] (setupyess u memory) :=
  Traced.state_iterate _ _

theorem traceAt_succ (u : Undetermined) (memory : Memory) (count : Nat) :
    traceAt u memory (count + 1) = (traceAt u memory count).cycle :=
  Function.iterate_succ_apply' _ _ _

theorem traced_of_runs (u : Undetermined) {count : Nat} (runs : Runs (setupyess u memory) count) :
    RunsFor Traced.cycle (fun t => Stopping t.state) (Traced.start u memory) count := by
  intro earlier below
  change ¬ Stopping (traceAt u memory earlier).state
  rw [traceAt_state]
  exact runs earlier below

/-- Every state of a run is in a phase. -/
theorem phase_of_runs (well : WellBehaved memory) (u : Undetermined) {count : Nat}
    (runs : Runs (setupyess u memory) count) : Phase memory count (traceAt u memory count) := by
  have kept (time : Nat) (t : Traced) (phase : Phase memory time t) (goesOn : ¬ Stopping t.state) :
      Phase memory (time + 1) t.cycle := phase.cycle well goesOn
  exact RunsFor.induction (Phase.start u memory) kept (traced_of_runs u runs)

theorem Phase.of_stopping {time : Nat} (phase : Phase memory time t)
    (stopping : Stopping t.state) :
    ∃ last, Rear memory t last (last + 1) (last + 1) ∧
      t.state.CC = (seqAt memory last).executed.CC ∧ SeqStopsAt memory last ∧
      time = entryTime memory last + 2 := by
  cases phase with
  | running follows => exact absurd follows.running stopping
  | stopE rear issue stops =>
      exact absurd (rear.running (stops.1.of_le rear.stored_le)) stopping
  | stopM rear CC stops => exact absurd (rear.running stops.1) stopping
  | stopW rear CC stops due => exact ⟨_, rear, CC, stops, due⟩

theorem runs_of_le (well : WellBehaved memory) (u : Undetermined) {time : Nat}
    (before : ∀ last, SeqStopsAt memory last → time ≤ entryTime memory last + 2) :
    Runs (setupyess u memory) time := by
  induction time with
  | zero => exact RunsFor.zero
  | succ time ih =>
      have runs := ih fun last stops => Nat.le_of_succ_le (before last stops)
      refine runs.succ fun stopping => ?_
      rw [← traceAt_state] at stopping
      obtain ⟨last, -, -, stops, due⟩ := (phase_of_runs well u runs).of_stopping stopping
      have bound := before last stops
      omega

/-- Then the stopping instruction is in W and ends the loop. -/
theorem stopsAt_entryTime (well : WellBehaved memory) (u : Undetermined) {last : Nat}
    (stops : SeqStopsAt memory last) :
    StopsAt (setupyess u memory) (entryTime memory last + 2) := by
  have runs : Runs (setupyess u memory) (entryTime memory last + 2) :=
    runs_of_le well u fun other otherStops => by rw [stops.unique otherStops]
  refine ⟨runs, ?_⟩
  rw [← traceAt_state]
  cases phase_of_runs well u runs with
  | running follows front due timely =>
      have inOrder := (entryTime_strictMono memory).monotone (stops.le_of_runsFor follows.reached)
      omega
  | stopE rear issue otherStops due =>
      obtain rfl := stops.unique otherStops
      omega
  | stopM rear CC otherStops due =>
      obtain rfl := stops.unique otherStops
      omega
  | stopW rear CC otherStops due =>
      unfold Stopping
      rw [rear.W, slot_full]
      exact otherStops.2

end Yess
