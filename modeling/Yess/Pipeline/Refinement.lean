import Yess.Pipeline.Phase

/-!
# The pipeline refines the sequential machine

For a well-behaved program, W holds the results of the sequential run one after
another, the loop is left exactly when the sequential machine stops, and the
registers and the memory it leaves are the ones of the sequential machine.
-/

namespace Yess

def results (memory : Memory) (count : Nat) : List Wregister :=
  (List.range count).map fun index => (seqAt memory index).result

/-- The main loop does what the sequential machine does.
`in_order`: in every state of a run, W has held the results of the first `stored`
instructions, and the registers are the ones after these instructions, but for
the one that is still in W.
`complete`: every instruction of the sequential run gets to W.
`exits`: the loop is left if the sequential machine stops.
`final`: it is left only then, with every result in W once, the last one of them
the stopping instruction, and with the registers and the memory before it.  The
condition codes are the ones the stopping instruction leaves, before the last
cycle of the loop. -/
structure RefinesSeq (u : Undetermined) (memory : Memory) : Prop where
  in_order : ∀ count, Runs (setupyess u memory) count → ∃ stored,
    (traceAt u memory count).committed = results memory stored ∧
      (∀ index < stored, Reaches memory index) ∧
      Agree (cycle^[count] (setupyess u memory)).registers
        (seqAt memory (if (traceAt u memory count).occupied.W then stored - 1 else
          stored)).registers
  complete : ∀ index, Reaches memory index → ∃ count, Runs (setupyess u memory) count ∧
    index < (traceAt u memory count).committed.length
  exits : ∀ index, SeqStopsAt memory index → ∃ last, Exits (setupyess u memory) last
  final : ∀ last, Exits (setupyess u memory) last → ∃ index, SeqStopsAt memory index ∧
    (traceAt u memory last.cycles).committed = results memory (index + 1) ∧
      Agree last.state.registers (seqAt memory index).registers ∧
      last.state.memory = (seqAt memory index).memory ∧
      (cycle^[last.cycles - 1] (setupyess u memory)).CC = (seqAt memory index).executed.CC

variable {memory : Memory} {t : Traced}

/-- In every phase the rear holds instructions of the run, and the condition codes are
the ones behind the instructions that have been executed. -/
theorem Phase.rear {time : Nat} (phase : Phase memory time t) :
    ∃ retired stored executed, Rear memory t retired stored executed ∧
      t.state.CC = (seqAt memory executed).CC ∧ (∀ index < executed, Reaches memory index) ∧
      Reaches memory retired := by
  cases phase with
  | running follows =>
      have retired_le := follows.rear.retired_le.trans follows.rear.stored_le
      exact ⟨_, _, _, follows.rear, follows.issue.CC, fun index below =>
        follows.executed_reached.of_le (Nat.le_of_lt below),
        follows.executed_reached.of_le retired_le⟩
  | stopE rear issue stops =>
      have retired_le := rear.retired_le.trans rear.stored_le
      exact ⟨_, _, _, rear, issue.CC, fun index below => stops.1.of_le (Nat.le_of_lt below),
        stops.1.of_le retired_le⟩
  | stopM rear CC stops =>
      refine ⟨_, _, _, rear, ?_, fun index below => stops.1.of_le (Nat.le_of_lt_succ below),
        stops.1.of_le rear.retired_le⟩
      rw [CC, seqAt_succ]
      rfl
  | stopW rear CC stops =>
      refine ⟨_, _, _, rear, ?_, fun index below => stops.1.of_le (Nat.le_of_lt_succ below),
        stops.1⟩
      rw [CC, seqAt_succ]
      rfl

/-- The number of retired instructions, read off the mark of W. -/
theorem Rear.retired_eq {retired stored executed : Nat}
    (rear : Rear memory t retired stored executed) :
    retired = if t.occupied.W then stored - 1 else stored := by
  rw [rear.W_occupied]
  rcases rear.W_next with rfl | rfl <;> simp

/-- Two cycles after an instruction was in E, it has got to W. -/
theorem committed_of_reaches (well : WellBehaved memory) (u : Undetermined) {index : Nat}
    (reached : Reaches memory index) :
    ∃ count, Runs (setupyess u memory) count ∧
      index < (traceAt u memory count).committed.length := by
  by_cases halts : ∃ last, SeqStopsAt memory last
  · obtain ⟨last, stops⟩ := halts
    have stopsAt := stopsAt_entryTime well u stops
    have stopping := stopsAt.2
    rw [← traceAt_state] at stopping
    obtain ⟨other, rear, -, otherStops, -⟩ :=
      (phase_of_runs well u stopsAt.1).of_stopping stopping
    obtain rfl := stops.unique otherStops
    refine ⟨_, stopsAt.1, ?_⟩
    rw [rear.committed, List.length_map, List.length_range]
    exact Nat.lt_succ_of_le (stops.le_of_runsFor reached)
  · have runs : Runs (setupyess u memory) (entryTime memory index + 2) :=
      runs_of_le well u fun last stops => absurd ⟨last, stops⟩ halts
    refine ⟨_, runs, ?_⟩
    cases phase_of_runs well u runs with
    | running follows front due timely =>
        rw [follows.rear.committed, List.length_map, List.length_range]
        exact timely.stored_of_le index (Nat.le_refl _)
    | stopE rear issue stops => exact absurd ⟨_, stops⟩ halts
    | stopM rear CC stops => exact absurd ⟨_, stops⟩ halts
    | stopW rear CC stops => exact absurd ⟨_, stops⟩ halts

/-- When the loop is left, everything is as the sequential machine has it. -/
theorem final_of_exits (well : WellBehaved memory) (u : Undetermined) {last : Loop}
    (exits : Exits (setupyess u memory) last) :
    ∃ index, SeqStopsAt memory index ∧
      (traceAt u memory last.cycles).committed = results memory (index + 1) ∧
        Agree last.state.registers (seqAt memory index).registers ∧
        last.state.memory = (seqAt memory index).memory ∧
        (cycle^[last.cycles - 1] (setupyess u memory)).CC =
          (seqAt memory index).executed.CC := by
  obtain ⟨count, stopsAt, state, cycles, -⟩ := exits.spec
  cases count with
  | zero => exact absurd stopsAt.2 (not_stopping_setupyess u memory)
  | succ before =>
      have stopping := stopsAt.2
      have settled := settled_of_runs stopsAt.1
      obtain ⟨registers, memoryKept, -⟩ := cycle_stopping stopping settled
      have stale := cycle_stopping_stale stopping settled
      rw [← traceAt_state] at stopping stale registers memoryKept
      obtain ⟨index, rear, CC, stops, -⟩ := (phase_of_runs well u stopsAt.1).of_stopping stopping
      refine ⟨index, stops, ?_, ?_, ?_, ?_⟩
      · rw [cycles, traceAt_succ, Traced.committed_stopping stale ?_, rear.committed]
        · rfl
        · rw [rear.M_occupied, decide_eq_false (Nat.lt_irrefl _)]
      · rw [state, Function.iterate_succ_apply', ← traceAt_state, registers]
        exact rear.registers
      · rw [state, Function.iterate_succ_apply', ← traceAt_state, memoryKept, rear.memory_eq,
          seqAt_succ]
        exact SeqState.Stops.accessed_memory stops.2
      · rw [cycles, Nat.add_sub_cancel, ← traceAt_state]
        exact CC

/-- The pipeline refines the sequential machine on every well-behaved program. -/
theorem pipeline_refines_seq (u : Undetermined) (memory : Memory) (well : WellBehaved memory) :
    RefinesSeq u memory where
  in_order count runs := by
    obtain ⟨retired, stored, executed, rear, -, reached, -⟩ := (phase_of_runs well u runs).rear
    refine ⟨stored, rear.committed, fun index below => ?_, ?_⟩
    · exact reached index (Nat.lt_of_lt_of_le below rear.stored_le)
    · rw [← rear.retired_eq, ← traceAt_state]
      exact rear.registers
  complete index reached := committed_of_reaches well u reached
  exits index stops := exits_of_stopsAt (stopsAt_entryTime well u stops)
  final last exits := final_of_exits well u exits

/-- A program with a store, a load and a use of the loaded register:
`irmovl $0x100,%esp`, `pushl %eax`, `popl %ecx`, `addl %ecx,%ecx`, `halt`. -/
def pushPop : Memory := fun place =>
  if place.val = 0 then 0x0100F430
  else if place.val = 1 then 0x0FA00000
  else if place.val = 2 then 0x11601FB0
  else 0

theorem pushPop_stopsAt : SeqStopsAt pushPop 4 := by decide +kernel

theorem pushPop_wellBehaved : WellBehaved pushPop :=
  wellBehaved_of_stopsAt pushPop_stopsAt (by decide +kernel) (by decide +kernel)
    (by decide +kernel)

/-- The refinement at this program. -/
theorem pipeline_refines_seq_pushPop : RefinesSeq .zero pushPop :=
  pipeline_refines_seq .zero pushPop pushPop_wellBehaved

end Yess
