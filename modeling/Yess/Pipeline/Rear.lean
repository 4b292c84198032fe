import Yess.Pipeline.Trace
import Yess.Pipeline.Operands
import Yess.Lib.Schedule

/-!
# The simulation of the sequential machine

A reachable machine holds up to four consecutive instructions of the sequential
run, some of its registers bubbles.  Four numbers say where the run stands:
`retired` instructions have written their registers, `stored` have accessed
memory, `executed` have set the condition codes, `issued` have read their
operands.  W holds instruction `retired` if it is below `stored`, M holds
`stored` if it is below `executed`, and E holds `executed` if it is below
`issued`.
-/

namespace Yess

open Lib.Iteration Lib.Schedule

/-- The content of a pipeline register: instruction number `first` if it is below
`next`, else a bubble. -/
def slot {Content : Type} (bubble : Content) (content : SeqState → Content) (memory : Memory)
    (first next : Nat) : Content :=
  if first < next then content (seqAt memory first) else bubble

@[simp] theorem slot_empty {Content : Type} (bubble : Content) (content : SeqState → Content)
    (memory : Memory) (first : Nat) : slot bubble content memory first first = bubble :=
  if_neg (Nat.lt_irrefl first)

@[simp] theorem slot_full {Content : Type} (bubble : Content) (content : SeqState → Content)
    (memory : Memory) (first : Nat) :
    slot bubble content memory first (first + 1) = content (seqAt memory first) :=
  if_pos (Nat.lt_succ_self first)

/-- M, W, the registers and memory follow the sequential run. -/
structure Rear (memory : Memory) (t : Traced) (retired stored executed : Nat) : Prop where
  W_next : stored = retired ∨ stored = retired + 1
  M_next : executed = stored ∨ executed = stored + 1
  W : t.state.W = slot clearWregister SeqState.result memory retired stored
  M : t.state.M = slot clearMregister (fun σ => σ.executed.M) memory stored executed
  W_occupied : t.occupied.W = decide (retired < stored)
  M_occupied : t.occupied.M = decide (stored < executed)
  registers : Agree t.state.registers (seqAt memory retired).registers
  memory_eq : t.state.memory = (seqAt memory stored).memory
  committed : t.committed = (List.range stored).map fun index => (seqAt memory index).result

/-- E and the condition codes follow the sequential run. -/
structure Issued (memory : Memory) (t : Traced) (executed issued : Nat) : Prop where
  E_next : issued = executed ∨ issued = executed + 1
  E : t.state.E = slot clearEregister SeqState.operands memory executed issued
  E_occupied : t.occupied.E = decide (executed < issued)
  CC : t.state.CC = (seqAt memory executed).CC

variable {memory : Memory} {t : Traced} {retired stored executed issued : Nat}

namespace Rear

theorem retired_le (rear : Rear memory t retired stored executed) : retired ≤ stored := by
  rcases rear.W_next with rfl | rfl
  · exact Nat.le_refl _
  · exact Nat.le_succ _

theorem stored_le (rear : Rear memory t retired stored executed) : stored ≤ executed := by
  rcases rear.M_next with rfl | rfl
  · exact Nat.le_refl _
  · exact Nat.le_succ stored

theorem running (rear : Rear memory t retired stored executed)
    (reached : Reaches memory stored) : t.state.W.stat = .saok := by
  rw [rear.W]
  rcases rear.W_next with rfl | rfl
  · rw [slot_empty]
    rfl
  · rw [slot_full]
    exact not_not.mp (reached.not_stops (Nat.lt_succ_self retired))

theorem access (rear : Rear memory t retired stored executed) :
    t.state.access =
      slot ⟨0, .saok, (seqAt memory stored).memory⟩ SeqState.accessed memory stored executed := by
  unfold State.access
  rw [rear.memory_eq, rear.M]
  rcases rear.M_next with rfl | rfl
  · rw [slot_empty, slot_empty, memoryAccess_clear]
  · rw [slot_full, slot_full]
    rfl

theorem access_memory (rear : Rear memory t retired stored executed) :
    t.state.access.memory = (seqAt memory executed).memory := by
  rw [rear.access]
  rcases rear.M_next with rfl | rfl
  · rw [slot_empty]
  · rw [slot_full, seqAt_succ]
    rfl

/-- The data access of an instruction that does not stop the machine does not fail. -/
theorem access_stat (rear : Rear memory t retired stored executed) (well : WellBehaved memory)
    (reached : Reaches memory executed) : t.state.access.stat = .saok := by
  rw [rear.access]
  rcases rear.M_next with rfl | rfl
  · rw [slot_empty]
  · rw [slot_full, SeqState.accessed_stat_eq_status
      (well.bytes stored (reached.of_le (Nat.le_succ stored)))]
    exact not_not.mp (reached.not_stops (Nat.lt_succ_self stored))

theorem written (rear : Rear memory t retired stored executed) :
    Agree t.state.written (seqAt memory stored).registers := by
  have before := rear.registers
  unfold State.written
  rw [rear.W]
  rcases rear.W_next with rfl | rfl
  · rw [slot_empty]
    exact (before.write_rNone 0).write_rNone 0
  · rw [slot_full, seqAt_succ]
    exact (before.write _ _).write _ _

end Rear

theorem State.forwarded_normal {s : State} (normal : s.access.stat = .saok) :
    bubbleM s.forwarded = false ∧ exceptionAhead s.forwarded = false ∧
      stallW s.forwarded = false := by
  have m_stat : s.forwarded.m_stat = .saok := normal
  have W_stat : s.forwarded.W_stat = .saok := rfl
  rw [bubbleM_eq, exceptionAhead_eq, stallW_eq, m_stat, W_stat]
  decide

theorem execute_clear (CC : Word) :
    execute clearEregister true CC = ⟨clearMregister, clearEregister, CC⟩ := rfl

theorem Issued.executed_le (issue : Issued memory t executed issued) : executed ≤ issued := by
  rcases issue.E_next with rfl | rfl
  · exact Nat.le_refl _
  · exact Nat.le_succ executed

theorem Issued.execution (issue : Issued memory t executed issued)
    (normal : t.state.access.stat = .saok) :
    t.state.execution =
      slot ⟨clearMregister, clearEregister, (seqAt memory executed).CC⟩ SeqState.executed memory
        executed issued := by
  unfold State.execution
  rw [normal, issue.E, issue.CC]
  rcases issue.E_next with rfl | rfl
  · rw [slot_empty, slot_empty]
    exact execute_clear _
  · rw [slot_full, slot_full]
    rfl

/-- The condition codes after the execution are the ones of the next instruction. -/
theorem Issued.execution_CC (issue : Issued memory t executed issued)
    (normal : t.state.access.stat = .saok) :
    t.state.execution.CC = (seqAt memory issued).CC := by
  rw [issue.execution normal]
  rcases issue.E_next with rfl | rfl
  · rw [slot_empty]
  · rw [slot_full, seqAt_succ]
    rfl

/-- In a cycle behind instructions that do not stop the machine, every instruction
from E on moves ahead by one register. -/
theorem Rear.cycle (well : WellBehaved memory) (rear : Rear memory t retired stored executed)
    (issue : Issued memory t executed issued) (reached : Reaches memory executed) :
    Rear memory t.cycle stored executed issued ∧
      t.cycle.state.CC = (seqAt memory issued).CC := by
  have running := rear.running (reached.of_le rear.stored_le)
  have normal := rear.access_stat well reached
  have after : t.cycle.state = _ := cycle_running running
  obtain ⟨noBubbleM, noException, noStallW⟩ := State.forwarded_normal normal
  have W : t.cycle.state.W = slot clearWregister SeqState.result memory stored executed := by
    rw [after, rear.access, rear.M]
    rcases rear.M_next with rfl | rfl
    · simp only [slot_empty]
      rfl
    · simp only [slot_full]
      rw [SeqState.accessed_stat_eq_status (well.bytes stored (reached.of_le (Nat.le_succ stored)))]
      rfl
  refine ⟨⟨rear.M_next, issue.E_next, W, ?_, ?_, ?_, ?_, ?_, ?_⟩, ?_⟩
  · rw [after, normal, issue.execution normal]
    rcases issue.E_next with rfl | rfl
    · simp only [slot_empty]
      rfl
    · simp only [slot_full]
      rfl
  · rw [Traced.occupied_running running]
    simp only [Occupied.cycle, noStallW, rear.M_occupied, Bool.false_eq_true, if_false]
  · rw [Traced.occupied_running running]
    simp only [Occupied.cycle, noBubbleM, noException, issue.E_occupied, Bool.or_self,
      Bool.false_eq_true, if_false]
  · rw [after]
    exact rear.written
  · rw [after]
    exact rear.access_memory
  · rw [Traced.committed_running running, W, rear.M_occupied, rear.committed]
    rcases rear.M_next with rfl | rfl
    · simp
    · simp [List.range_succ]
  · rw [after]
    exact issue.execution_CC normal

/-! ## Operands -/

theorem Rear.behind (rear : Rear memory t retired stored executed) :
    Agree (Function.update (Function.update t.state.written t.state.M.dstE t.state.M.valE)
      t.state.M.dstM t.state.access.valM) (seqAt memory executed).registers := by
  have before := rear.written
  rw [rear.M, rear.access]
  rcases rear.M_next with rfl | rfl
  · rw [slot_empty, slot_empty]
    exact (before.write_rNone 0).write_rNone 0
  · rw [slot_full, slot_full, seqAt_succ]
    exact (before.write _ _).write _ _

theorem getDstM_eq_rNone {dreg : Dregister}
    (noLoad : ¬ (dreg.icode = .mrmovl ∨ dreg.icode = .popl)) : getDstM dreg = rNone := if_neg noLoad

/-- Without a load/use hazard, a forwarded operand is the one the sequential machine reads. -/
theorem Issued.operand (rear : Rear memory t retired stored executed)
    (issue : Issued memory t executed issued) (normal : t.state.access.stat = .saok)
    {src : Rregister} (proper : ProperId src)
    (noHazard : ¬ ((t.state.E.icode = .mrmovl ∨ t.state.E.icode = .popl) ∧ t.state.E.dstM = src)) :
    forwardB t.state.written src t.state.forwarded = (seqAt memory issued).registers.read src := by
  have behind := rear.behind
  rcases issue.E_next with rfl | rfl
  · refine t.state.forwardB_of_agree ?_ proper
    unfold State.ahead
    rw [issue.execution normal, slot_empty]
    exact behind.write_rNone 0
  · have E := issue.E
    rw [slot_full] at E
    have agree : Agree t.state.ahead ((seqAt memory executed).registers.write
        (seqAt memory executed).executed.M.dstE (seqAt memory executed).executed.M.valE) := by
      unfold State.ahead
      rw [issue.execution normal, slot_full]
      exact behind.write _ _
    rw [t.state.forwardB_of_agree agree proper, seqAt_succ]
    change _ = (RegisterFile.write _ (getDstM (seqAt memory executed).instruction) _).read src
    rw [E] at noHazard
    by_cases load : (seqAt memory executed).instruction.icode = .mrmovl ∨
        (seqAt memory executed).instruction.icode = .popl
    · exact (RegisterFile.read_write_of_ne _ _ fun same => noHazard ⟨load, same.symm⟩).symm
    · rw [getDstM_eq_rNone load, RegisterFile.write_rNone]

/-- Without a load/use hazard, decode reads the operands of the sequential machine. -/
theorem Issued.decoded (well : WellBehaved memory) (rear : Rear memory t retired stored executed)
    (issue : Issued memory t executed issued) (normal : t.state.access.stat = .saok)
    (reached : Reaches memory issued) (D : t.state.D = (seqAt memory issued).instruction)
    (noHazard : loadUse t.state.forwarded = false) :
    t.state.decoded = (seqAt memory issued).operands := by
  have uses := well.uses issued reached
  have clear : ¬ ((t.state.E.icode = .mrmovl ∨ t.state.E.icode = .popl) ∧
      (t.state.E.dstM = getSrcA t.state.D ∨ t.state.E.dstM = getSrcB t.state.D)) := by
    rw [← Bool.not_eq_true, loadUse_iff] at noHazard
    exact noHazard
  have properA : ProperId (getSrcA t.state.D) := D ▸ uses.srcA
  have properB : ProperId (getSrcB t.state.D) := D ▸ uses.srcB
  have valA := Issued.operand rear issue normal properA fun hazard =>
    clear ⟨hazard.1, Or.inl hazard.2⟩
  have valB := Issued.operand rear issue normal properB fun hazard =>
    clear ⟨hazard.1, Or.inr hazard.2⟩
  unfold State.decoded SeqState.operands
  rw [selectFwdA_eq, valA, valB, D]

end Yess
