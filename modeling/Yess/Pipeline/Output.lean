import Yess.Output
import Yess.Pipeline.Refinement

/-!
# The output of the pipeline is the output of the sequential machine

Write-back prints what an instruction shows when the instruction is in W: for a
well-behaved program that is the output of the sequential run, in order and with
nothing lost or printed twice.  Only the contents of the processor registers are
not a matter of the sequential machine.
-/

namespace Yess

open Lib.CString Lib.Iteration

/-- What the sequential machine prints for one instruction: of the processor
registers, only that they are dumped. -/
def SeqState.shown (σ : SeqState) : List (Piece RegisterFile Unit) :=
  pieces σ.result σ.registers () σ.memory

def seqPrinted (memory : Memory) (count : Nat) : List (Piece RegisterFile Unit) :=
  (List.range count).flatMap fun index => (seqAt memory index).shown

theorem seqPrinted_succ (memory : Memory) (count : Nat) :
    seqPrinted memory (count + 1) = seqPrinted memory count ++ (seqAt memory count).shown := by
  unfold seqPrinted
  rw [List.range_succ, List.flatMap_append, List.flatMap_singleton]

def Registers.file (registers : Registers) : RegisterFile := fun place => registers place.val

/-- A piece as the sequential machine shows it. -/
def Piece.shown (piece : Piece Registers State) : Piece RegisterFile Unit :=
  piece.map Registers.file fun _ => ()

theorem Agree.file_eq {cells : Registers} {file : RegisterFile} (agree : Agree cells file) :
    cells.file = file := funext agree

theorem pieces_map {Program Program' Processor Processor' : Type} (program : Program → Program')
    (processor : Processor → Processor') (W : Wregister) (registers : Program) (state : Processor)
    (memory : Memory) :
    (pieces W registers state memory).map (Piece.map program processor) =
      pieces W (program registers) (processor state) memory := by
  unfold pieces
  split_ifs <;> rfl

theorem pieces_of_saok {Program Processor : Type} {W : Wregister} (running : W.stat = .saok)
    (noDump : W.icode ≠ .dump) (registers : Program) (state : Processor) (memory : Memory) :
    pieces W registers state memory = [] := by
  unfold pieces
  rw [running]
  exact if_neg noDump

theorem SeqState.accessed_memory_of_prints {σ : SeqState}
    (prints : σ.Stops ∨ σ.instruction.icode = .dump) : σ.accessed.memory = σ.memory := by
  rcases prints with stops | isDump
  · exact stops.accessed_memory
  · rw [accessed_memory, if_neg]
    rw [memWrite, executed_icode, isDump]
    exact Bool.false_ne_true

theorem SeqState.pieces_accessed (σ : SeqState) :
    pieces σ.result σ.registers () σ.accessed.memory = σ.shown := by
  by_cases prints : σ.Stops ∨ σ.instruction.icode = .dump
  · rw [σ.accessed_memory_of_prints prints]
    rfl
  · obtain ⟨running, noDump⟩ := not_or.mp prints
    have stat : σ.result.stat = .saok := not_not.mp running
    unfold shown
    rw [pieces_of_saok stat noDump, pieces_of_saok stat noDump]

variable {memory : Memory} {t : Traced}

/-- In one cycle, write-back prints what the instruction in W shows, if there is one. -/
theorem Rear.printed {retired stored executed : Nat}
    (rear : Rear memory t retired stored executed) :
    (writebackPrinted t.state).map Piece.shown =
      slot [] SeqState.shown memory retired stored := by
  have shown : (writebackPrinted t.state).map Piece.shown =
      pieces t.state.W (seqAt memory retired).registers () t.state.memory := by
    rw [writebackPrinted, ← rear.registers.file_eq]
    exact pieces_map Registers.file (fun _ => ()) _ _ _ _
  rw [shown, rear.W, rear.memory_eq]
  rcases rear.W_next with rfl | rfl
  · rw [slot_empty, slot_empty]
    rfl
  · rw [slot_full, slot_full, seqAt_succ]
    exact SeqState.pieces_accessed _

/-! ## Whole runs -/

theorem Rear.retired_of {retired stored executed : Nat}
    (rear : Rear memory t retired stored executed) : t.retired = retired := by
  rw [rear.retired_eq, Traced.retired, rear.committed, List.length_map, List.length_range]

theorem Traced.retired_cycle (running : t.state.W.stat = .saok) :
    t.cycle.retired = t.committed.length := by
  unfold retired
  rw [committed_running running, occupied_running running]
  have W : (t.occupied.cycle t.state.forwarded).W = t.occupied.M := rfl
  rw [W]
  cases t.occupied.M with
  | false => rfl
  | true =>
      rw [if_pos rfl, if_pos rfl, List.length_append]
      rfl

/-- The cycles of a run print what the instructions show that have left W. -/
theorem printed_of_runs (well : WellBehaved memory) (u : Undetermined) {count : Nat}
    (runs : Runs (setupyess u memory) count) :
    (printed (setupyess u memory) count).map Piece.shown =
      seqPrinted memory (traceAt u memory count).retired := by
  induction count with
  | zero => rfl
  | succ count ih =>
      have before := runs.of_le (Nat.le_succ count)
      have running : (traceAt u memory count).state.W.stat = .saok := by
        rw [traceAt_state]
        exact not_not.mp (runs count (Nat.lt_succ_self count))
      obtain ⟨retired, stored, executed, rear, -⟩ := (phase_of_runs well u before).rear
      have cycle := rear.printed
      have length : (traceAt u memory count).committed.length = stored := by
        rw [rear.committed, List.length_map, List.length_range]
      rw [printed_succ, List.map_append, ih before, ← traceAt_state, traceAt_succ, cycle,
        Traced.retired_cycle running, length, rear.retired_of]
      rcases rear.W_next with rfl | rfl
      · rw [slot_empty, List.append_nil]
      · rw [slot_full, seqPrinted_succ]

/-- The output of the whole loop: the sequential machine's, its last instruction included. -/
theorem printed_of_stopsAt (well : WellBehaved memory) (u : Undetermined) {count : Nat}
    (stopsAt : StopsAt (setupyess u memory) count) :
    ∃ index, SeqStopsAt memory index ∧
      (printed (setupyess u memory) (count + 1)).map Piece.shown =
        seqPrinted memory (index + 1) := by
  have stopping := stopsAt.2
  rw [← traceAt_state] at stopping
  obtain ⟨index, rear, -, stops, -⟩ := (phase_of_runs well u stopsAt.1).of_stopping stopping
  have last := rear.printed
  refine ⟨index, stops, ?_⟩
  rw [printed_succ, List.map_append, printed_of_runs well u stopsAt.1, rear.retired_of,
    ← traceAt_state, last, slot_full, seqPrinted_succ]

/-- The main loop prints what the sequential machine prints.
`prefix_of_runs`: at every point of a run, for the instructions that have left W.
`whole`: when the loop is left, for all instructions up to the one that stops it, and
`hasdumped` says whether that is anything. -/
structure PrintsSeq (u : Undetermined) (memory : Memory) : Prop where
  prefix_of_runs : ∀ count, Runs (setupyess u memory) count →
    (∀ index < (traceAt u memory count).retired, Reaches memory index) ∧
      (printed (setupyess u memory) count).map Piece.shown =
        seqPrinted memory (traceAt u memory count).retired
  whole : ∀ last, Exits (setupyess u memory) last → ∃ index, SeqStopsAt memory index ∧
    (printed (setupyess u memory) last.cycles).map Piece.shown =
        seqPrinted memory (index + 1) ∧
      last.hasdumped = !(seqPrinted memory (index + 1)).isEmpty

/-- The output of the pipeline is the one of the sequential machine, for every
well-behaved program. -/
theorem prints_seq (u : Undetermined) (memory : Memory) (well : WellBehaved memory) :
    PrintsSeq u memory where
  prefix_of_runs count runs := by
    obtain ⟨retired, stored, executed, rear, -, -, reached⟩ := (phase_of_runs well u runs).rear
    refine ⟨fun index below => reached.of_le ?_, printed_of_runs well u runs⟩
    rw [rear.retired_of] at below
    exact Nat.le_of_lt below
  whole last exits := by
    obtain ⟨count, stopsAt, -, cycles, -⟩ := exits.spec
    obtain ⟨index, stops, output⟩ := printed_of_stopsAt well u stopsAt
    refine ⟨index, stops, ?_, ?_⟩
    · rw [cycles, output]
    · rw [exits.hasdumped, cycles, ← output, List.isEmpty_map]

/-- `irmovl $5,%eax`, a `DUMP` of everything, `halt`. -/
def dumpAll : Memory := fun place =>
  if place.val = 0 then 0x0005F030
  else if place.val = 1 then 0x07C00000
  else 0

theorem dumpAll_stopsAt : SeqStopsAt dumpAll 2 := by decide +kernel

theorem dumpAll_wellBehaved : WellBehaved dumpAll :=
  wellBehaved_of_stopsAt dumpAll_stopsAt (by decide +kernel) (by decide +kernel)
    (by decide +kernel)

/-- The output of this program, of three pieces. -/
theorem prints_seq_dumpAll : PrintsSeq .zero dumpAll ∧ (seqPrinted dumpAll 3).length = 3 :=
  ⟨prints_seq .zero dumpAll dumpAll_wellBehaved, by decide +kernel⟩

/-! ## What a dump of the processor registers shows -/

/-- A dump of the processor registers is of the state in which write-back prints it,
for the last instruction or a `DUMP`. -/
theorem of_processorRegisters_mem {s shown : State}
    (member : .processorRegisters shown ∈ writebackPrinted s) :
    shown = s ∧ (s.W.stat ≠ .saok ∨ s.W.icode = .dump) := by
  constructor
  · unfold writebackPrinted pieces at member
    split_ifs at member <;> simp_all
  · by_contra other
    obtain ⟨running, noDump⟩ := not_or.mp other
    unfold writebackPrinted at member
    rw [pieces_of_saok (not_not.mp running) noDump] at member
    exact List.not_mem_nil member

/-- The state in which an instruction of the sequential run dumps the processor
registers: the program registers and memory are the ones before it, W holds its own
result, M the next instruction of the run or a bubble, and the condition codes are the ones behind
everything up to M, so that they are one or two instructions ahead. -/
structure DumpedAt (memory : Memory) (index : Nat) (s : State) : Prop where
  reached : Reaches memory index
  registers : Agree s.registers (seqAt memory index).registers
  memory_eq : s.memory = (seqAt memory index).memory
  W : s.W = (seqAt memory index).result
  ahead : s.M = clearMregister ∧ s.CC = (seqAt memory (index + 1)).CC ∨
    Reaches memory (index + 1) ∧ s.M = (seqAt memory (index + 1)).executed.M ∧
      s.CC = (seqAt memory (index + 2)).CC

/-- Every dump of the processor registers that a well-behaved program prints, in a
`DUMP` or when it stops, shows the pipeline around the instruction that dumps. -/
theorem processor_dump (u : Undetermined) (memory : Memory) (well : WellBehaved memory)
    (count : Nat) (runs : Runs (setupyess u memory) count) (s : State)
    (member : .processorRegisters s ∈ printed (setupyess u memory) (count + 1)) :
    ∃ index, DumpedAt memory index s := by
  obtain ⟨earlier, below, member⟩ := List.mem_flatMap.mp member
  obtain ⟨rfl, prints⟩ := of_processorRegisters_mem member
  have before := runs.of_le (Nat.le_of_lt_succ (List.mem_range.mp below))
  obtain ⟨retired, stored, executed, rear, CC, reached, own⟩ := (phase_of_runs well u before).rear
  rw [← traceAt_state] at prints ⊢
  rw [rear.W] at prints
  rcases rear.W_next with rfl | rfl
  · rw [slot_empty] at prints
    exact absurd prints (by decide)
  · rw [slot_full] at prints
    have memoryKept := @SeqState.accessed_memory_of_prints (seqAt memory retired) prints
    refine ⟨retired, own, rear.registers, ?_, ?_, ?_⟩
    · rw [rear.memory_eq, seqAt_succ]
      exact memoryKept
    · rw [rear.W, slot_full]
    · rw [CC, rear.M]
      rcases rear.M_next with rfl | rfl
      · exact Or.inl ⟨slot_empty _ _ _ _, rfl⟩
      · exact Or.inr ⟨reached _ (Nat.lt_succ_self _), slot_full _ _ _ _, rfl⟩

theorem processorRegisters_mem {s : State} (running : s.W.stat = .saok)
    (isDump : s.W.icode = .dump) (bit : getBits 1 1 s.W.valE ≠ 0) :
    .processorRegisters s ∈ writebackPrinted s := by
  unfold writebackPrinted pieces
  rw [running, isDump, if_pos bit]
  simp

/-- The dump of the processor registers that `dumpAll` prints in its sixth cycle. -/
theorem processor_dump_dumpAll :
    ∃ index, DumpedAt dumpAll index (cycle^[5] (setupyess .zero dumpAll)) := by
  refine processor_dump .zero dumpAll dumpAll_wellBehaved 5 (by decide +kernel) _ ?_
  rw [printed_succ]
  exact List.mem_append_right _ (processorRegisters_mem (by decide +kernel) (by decide +kernel)
    (by decide +kernel))

end Yess
