import Yess.Cycle
import Yess.ConditionCodes

/-!
# Exceptions

What the machine does from the cycle in which a stopping instruction is in the
memory stage until the main loop is left, and what a faulting instruction does
to memory.  Both are statements about every program: no assumption is made on
the bytes in memory.
-/

namespace Yess

open Lib.Iteration Lib.ByteStore

/-! ## The last cycle -/

/-- In a state that stops the loop, M is a bubble and the forwarded status is the
one of an earlier cycle. -/
structure Settled (s : State) : Prop where
  bubbled : Stopping s → s.M = clearMregister
  stale : s.forward.W_stat = .saok

theorem settled_cycle {s : State} (running : ¬ Stopping s) : Settled (cycle s) := by
  have normal : s.W.stat = .saok := not_not.mp running
  rw [cycle_running normal]
  refine ⟨?_, rfl⟩
  intro stopping
  have exceptional : s.access.stat.exceptional = true :=
    (Stat.exceptional_eq_true_iff _).mpr stopping
  exact if_pos exceptional

/-- Past the first cycle every reachable machine is settled. -/
theorem settled_of_runs {s : State} {count : Nat} (runs : Runs s (count + 1)) :
    Settled (cycle^[count + 1] s) := by
  rw [Function.iterate_succ_apply']
  exact settled_cycle (runs count (Nat.lt_succ_self count))

/-- The last cycle writes neither registers nor memory, and executes the
instruction in E with the condition codes free to change: the writeback stage
returned before it forwarded the exceptional status. -/
theorem cycle_stopping {s : State} (stopping : Stopping s) (settled : Settled s) :
    (cycle s).registers = s.registers ∧ (cycle s).memory = s.memory ∧
      (cycle s).CC = (execute s.E true s.CC).CC := by
  have bubble := settled.bubbled stopping
  have stale := settled.stale
  rw [cycle, beforeDecode_stopping stopping]
  refine ⟨rfl, ?_, ?_⟩
  · simp only [memoryStage, executeStage, decodeStage, fetchStage, bubble, memoryAccess_clear]
  · simp only [memoryStage, executeStage, decodeStage, fetchStage, bubble, memoryAccess_clear,
      exceptionAhead_eq, stale]
    rfl

theorem cycle_stopping_stale {s : State} (stopping : Stopping s) (settled : Settled s) :
    (cycle s).forward.W_stat = .saok := by
  rw [cycle, beforeDecode_stopping stopping]
  exact settled.stale

theorem cycle_memory (s : State) : (cycle s).memory = s.access.memory := by
  obtain ⟨registers, forward, frame⟩ := writebackStage_frame s
  rw [cycle, beforeDecode, frame]
  rfl

/-! ## Nothing younger than the stopping instruction takes effect -/

/-- From the cycle in which the stopping instruction is in the memory stage (it
starts in `before`) through the last cycle of the loop (it starts in `last` and
ends in `final`), registers are written only by the instruction ahead of the
stopping one, memory only by the stopping instruction itself, and the condition
codes by none. -/
structure NothingYounger (before last final : State) : Prop where
  registers_before : last.registers = (writebackStage before).state.registers
  memory_before : last.memory = (memoryStage (writebackStage before).state).memory
  CC_before : last.CC = before.CC
  registers_last : final.registers = last.registers
  memory_last : final.memory = last.memory
  CC_last : final.CC = last.CC

theorem frozen_before {s : State} (running : ¬ Stopping s) (stops : Stopping (cycle s)) :
    (cycle s).registers = (writebackStage s).state.registers ∧
      (cycle s).memory = (memoryStage (writebackStage s).state).memory ∧
      (cycle s).CC = s.CC := by
  have normal : s.W.stat = .saok := not_not.mp running
  have exceptional : s.access.stat.exceptional = true := by
    rw [cycle_running normal] at stops
    exact (Stat.exceptional_eq_true_iff _).mpr stops
  rw [cycle_running normal, writebackStage_of_eq normal]
  refine ⟨rfl, rfl, ?_⟩
  change (execute s.E (!s.access.stat.exceptional) s.CC).CC = s.CC
  rw [exceptional, execute_CC, Bool.not_true, performOpl_blocked]
  exact ite_self _

/-- In the last cycle everything but the condition codes is frozen, and these are
changed exactly by an `OPL` in E whose flags are not already there. -/
theorem frozen_last {s : State} (stopping : Stopping s) (settled : Settled s) :
    (cycle s).registers = s.registers ∧ (cycle s).memory = s.memory ∧
      ((cycle s).CC = s.CC ↔ (s.E.icode = .opl → oplFlags s.E = s.CC)) := by
  obtain ⟨registers, memory, CC⟩ := cycle_stopping stopping settled
  refine ⟨registers, memory, ?_⟩
  rw [CC, execute_CC]
  by_cases opl : s.E.icode = .opl
  · rw [if_pos opl, performOpl_CC]
    constructor
    · intro same _
      exact same
    · intro same
      exact same opl
  · rw [if_neg opl]
    exact iff_of_true rfl fun isOpl => absurd isOpl opl

theorem not_stopping_setupyess (u : Undetermined) (memory : Memory) :
    ¬ Stopping (setupyess u memory) := not_not.mpr rfl

/-- For every program: when the loop is left, the instruction it stopped at was in
the memory stage in the cycle that starts after `before` cycles, and nothing
younger has taken effect if and only if the last cycle does not find in E an `OPL`
whose flags differ from the condition codes. -/
theorem nothingYounger_iff (u : Undetermined) (memory : Memory) (last : Loop)
    (exits : Exits (setupyess u memory) last) :
    ∃ before, StopsAt (setupyess u memory) (before + 1) ∧
      (NothingYounger (cycle^[before] (setupyess u memory))
          (cycle^[before + 1] (setupyess u memory)) last.state ↔
        ((cycle^[before + 1] (setupyess u memory)).E.icode = .opl →
          oplFlags (cycle^[before + 1] (setupyess u memory)).E =
            (cycle^[before + 1] (setupyess u memory)).CC)) := by
  obtain ⟨count, stops, state, -⟩ := exits.spec
  cases count with
  | zero => exact absurd stops.2 (not_stopping_setupyess u memory)
  | succ before =>
      refine ⟨before, stops, ?_⟩
      have running := stops.1 before (Nat.lt_succ_self before)
      have settled := settled_of_runs stops.1
      have stopping := stops.2
      obtain ⟨registersLast, memoryLast, CCLast⟩ := frozen_last stopping settled
      rw [Function.iterate_succ_apply' _ before] at stopping
      obtain ⟨registersBefore, memoryBefore, CCBefore⟩ := frozen_before running stopping
      rw [state, ← CCLast, Function.iterate_succ_apply' _ (before + 1)]
      rw [Function.iterate_succ_apply' _ before] at registersLast memoryLast ⊢
      constructor
      · intro frozen
        exact frozen.CC_last
      · intro CC
        exact ⟨registersBefore, memoryBefore, CCBefore, registersLast, memoryLast, CC⟩

/-- A `HALT`, a `NOP`, and an `addl` that sets the zero flag. -/
def haltThenAddl : Memory := fun place => if place.val = 0 then 0x00601000 else 0

theorem haltThenAddl_stopsAt : StopsAt (setupyess .zero haltThenAddl) (3 + 1) := by decide +kernel

/-- The `addl` behind the `HALT` changes the condition codes in the last cycle. -/
theorem nothingYounger_haltThenAddl :
    ∃ last, Exits (setupyess .zero haltThenAddl) last ∧ ∀ before,
      StopsAt (setupyess .zero haltThenAddl) (before + 1) →
        ¬ NothingYounger (cycle^[before] (setupyess .zero haltThenAddl))
          (cycle^[before + 1] (setupyess .zero haltThenAddl)) last.state := by
  obtain ⟨last, exits⟩ := exits_of_stopsAt haltThenAddl_stopsAt
  refine ⟨last, exits, fun before stops frozen => ?_⟩
  obtain ⟨count, stopsLast, state, -⟩ := exits.spec
  obtain rfl := haltThenAddl_stopsAt.unique stopsLast
  obtain rfl : before = 3 := Nat.succ.inj (stops.unique haltThenAddl_stopsAt)
  have changed : (cycle^[3 + 1 + 1] (setupyess .zero haltThenAddl)).CC ≠
      (cycle^[3 + 1] (setupyess .zero haltThenAddl)).CC := by decide +kernel
  rw [state] at frozen
  exact changed frozen.CC_last

/-- The iff at the memory full of zeros, whose first instruction is a `HALT`. -/
theorem nothingYounger_iff_initMemory :
    ∃ last, Exits (setupyess .zero initMemory) last ∧
      ∃ before, StopsAt (setupyess .zero initMemory) (before + 1) ∧
        (NothingYounger (cycle^[before] (setupyess .zero initMemory))
            (cycle^[before + 1] (setupyess .zero initMemory)) last.state ↔
          ((cycle^[before + 1] (setupyess .zero initMemory)).E.icode = .opl →
            oplFlags (cycle^[before + 1] (setupyess .zero initMemory)).E =
              (cycle^[before + 1] (setupyess .zero initMemory)).CC)) := by
  have stops : StopsAt (setupyess .zero initMemory) 4 := by decide +kernel
  obtain ⟨last, exits⟩ := exits_of_stopsAt stops
  exact ⟨last, exits, nothingYounger_iff .zero initMemory last exits⟩

/-! ## What a faulting instruction does to memory -/

/-- The instruction in M entered the memory stage with a fault, still stores, and
its store is not refused and changes a word. -/
def FaultyStore (s : State) : Prop :=
  (s.M.stat = .sadr ∨ s.M.stat = .sins) ∧ memWrite s.M = true ∧
    WordInRange 65536 (selectMemoryAddr s.M).toInt ∧
    (getWord s.memory (selectMemoryAddr s.M).toInt).1 ≠ s.M.valA

instance (s : State) : Decidable (FaultyStore s) := inferInstanceAs (Decidable (_ ∧ _))

theorem memoryAccess_of_not_write {mreg : Mregister} (noWrite : memWrite mreg = false)
    (memory : Memory) : (memoryAccess memory mreg).memory = memory := by
  simp [memoryAccess, noWrite]

theorem memoryAccess_write {mreg : Mregister} (write : memWrite mreg = true) (memory : Memory)
    {index : Nat} (inside : index < memSize)
    (address : (selectMemoryAddr mreg).toInt = (4 * index : Nat)) :
    (memoryAccess memory mreg).memory = Function.update memory ⟨index, inside⟩ mreg.valA ∧
      (memoryAccess memory mreg).stat = mreg.stat := by
  simp only [memoryAccess, write, if_true, address, putWord_inRange memory inside]
  exact ⟨trivial, rfl⟩

theorem memoryAccess_write_refused {mreg : Mregister} (write : memWrite mreg = true)
    (memory : Memory) (refused : ¬ WordInRange 65536 (selectMemoryAddr mreg).toInt) :
    (memoryAccess memory mreg).memory = memory := by
  simp only [memoryAccess, write, if_true, putWord_refused memory refused]

/-- One data access: a faulting instruction leaves memory alone unless it is a
store that already carried its fault and goes through. -/
theorem access_memory_iff (s : State) :
    ((s.access.stat = .sadr ∨ s.access.stat = .sins) → s.access.memory = s.memory) ↔
      ¬ FaultyStore s := by
  unfold FaultyStore State.access
  cases write : memWrite s.M with
  | false => simp [memoryAccess_of_not_write write]
  | true =>
      by_cases inside : WordInRange 65536 (selectMemoryAddr s.M).toInt
      · obtain ⟨index, small, address⟩ := exists_wordIndex inside
        obtain ⟨memory, stat⟩ := memoryAccess_write write s.memory small address
        rw [memory, stat, address, getWord_inRange s.memory small, Function.update_eq_self_iff]
        rw [address] at inside
        simp only [inside, true_and, not_and, not_not, ne_eq]
        constructor
        · intro unchanged fault
          exact (unchanged fault).symm
        · intro unchanged fault
          exact (unchanged fault).symm
      · simp [memoryAccess_write_refused write s.memory inside, inside]

theorem cycle_W_stat {s : State} (running : ¬ Stopping s) :
    (cycle s).W.stat = s.access.stat := by
  rw [cycle_running (not_not.mp running)]

theorem cycle_W_stopping {s : State} (stopping : Stopping s) (settled : Settled s) :
    (cycle s).W.stat = .saok := by
  have bubble := settled.bubbled stopping
  have stale := settled.stale
  rw [cycle, beforeDecode_stopping stopping]
  simp only [memoryStage, executeStage, decodeStage, fetchStage, bubble, memoryAccess_clear,
    stallW_eq, stale]
  rfl

/-- For every program and every cycle of the loop: the instruction that reaches W
with `SADR` or `SINS` has left memory as it was, if and only if it is not a store
that carried its fault into the memory stage and goes through. -/
theorem faulting_memory_iff (u : Undetermined) (memory : Memory) (count : Nat)
    (runs : Runs (setupyess u memory) count) :
    (((cycle^[count + 1] (setupyess u memory)).W.stat = .sadr ∨
        (cycle^[count + 1] (setupyess u memory)).W.stat = .sins) →
      (cycle^[count + 1] (setupyess u memory)).memory =
        (cycle^[count] (setupyess u memory)).memory) ↔
      ¬ FaultyStore (cycle^[count] (setupyess u memory)) := by
  rw [Function.iterate_succ_apply', cycle_memory]
  by_cases stopping : Stopping (cycle^[count] (setupyess u memory))
  · cases count with
    | zero => exact absurd stopping (not_stopping_setupyess u memory)
    | succ before =>
        have settled := settled_of_runs runs
        rw [cycle_W_stopping stopping settled]
        have noStore : ¬ FaultyStore (cycle^[before + 1] (setupyess u memory)) := by
          rintro ⟨-, write, -⟩
          rw [settled.bubbled stopping] at write
          exact absurd write (by decide)
        refine iff_of_true ?_ noStore
        rintro (sadr | sins)
        · exact nomatch sadr
        · exact nomatch sins
  · rw [cycle_W_stat stopping]
    exact access_memory_iff _

/-- A jump to the last byte of memory, which holds the first byte of an `rmmovl`. -/
def jumpToRmmovl : Memory := fun place =>
  if place.val = 0 then 0x00FFFF70 else if place.val = 16383 then 0x40000000 else 0

/-- The truncated `rmmovl` reaches W with `SADR` and has overwritten word zero. -/
theorem faulting_memory_jumpToRmmovl :
    Runs (setupyess .zero jumpToRmmovl) 4 ∧
      (cycle^[4 + 1] (setupyess .zero jumpToRmmovl)).W.stat = .sadr ∧
      (cycle^[4 + 1] (setupyess .zero jumpToRmmovl)).memory ≠
        (cycle^[4] (setupyess .zero jumpToRmmovl)).memory := by
  refine ⟨by decide +kernel, by decide +kernel, fun same => ?_⟩
  have changed : (cycle^[4 + 1] (setupyess .zero jumpToRmmovl)).memory 0 ≠
      (cycle^[4] (setupyess .zero jumpToRmmovl)).memory 0 := by decide +kernel
  exact changed (congrFun same 0)

/-- The iff at the cycle of that store. -/
theorem faulting_memory_iff_jumpToRmmovl :
    (((cycle^[4 + 1] (setupyess .zero jumpToRmmovl)).W.stat = .sadr ∨
        (cycle^[4 + 1] (setupyess .zero jumpToRmmovl)).W.stat = .sins) →
      (cycle^[4 + 1] (setupyess .zero jumpToRmmovl)).memory =
        (cycle^[4] (setupyess .zero jumpToRmmovl)).memory) ↔
      ¬ FaultyStore (cycle^[4] (setupyess .zero jumpToRmmovl)) :=
  faulting_memory_iff .zero jumpToRmmovl 4 (by decide +kernel)

/-! ## What a faulting instruction does to the condition codes -/

/-- The fetched `OPL` had its register byte: without it, it names no register. -/
def OplFetched (D : Dregister) : Prop :=
  D.icode = .opl → D.stat = .saok ∨ (D.stat = .sadr ∧ D.rA = rNone ∧ D.rB = rNone)

def OplDecoded (E : Eregister) : Prop :=
  E.icode = .opl → E.stat = .saok ∨ (E.stat = .sadr ∧ E.valA = 0 ∧ E.valB = 0)

theorem fetchInstruction_opl (memory : Memory) (pc : Word) :
    OplFetched (fetchInstruction memory pc) := by
  unfold OplFetched
  rw [fetchInstruction_icode]
  intro opl
  unfold fetchInstruction
  simp only [opl, needRegids, needValC, instructionValid]
  cases first : (getByte memory pc.toInt).2 with
  | true => exact Or.inr ⟨rfl, rfl, rfl⟩
  | false =>
      cases second : (getByte memory (pc + 1).toInt).2 with
      | true => exact Or.inr ⟨rfl, rfl, rfl⟩
      | false => exact Or.inl rfl

theorem decoded_opl {s : State} (fetched : OplFetched s.D) : OplDecoded s.decoded := by
  intro opl
  obtain ok | ⟨fault, noA, noB⟩ := fetched opl
  · exact Or.inl ok
  · have code : s.D.icode = .opl := opl
    have srcA : getSrcA s.D = rNone := by rw [getSrcA, code, noA]
    have srcB : getSrcB s.D = rNone := by rw [getSrcB, code, noB]
    refine Or.inr ⟨fault, ?_, ?_⟩
    · change selectFwdA s.written s.D (getSrcA s.D) s.forwarded = 0
      rw [srcA, selectFwdA, if_neg (by simp [code]), if_pos rfl]
    · change forwardB s.written (getSrcB s.D) s.forwarded = 0
      rw [srcB, forwardB, if_pos rfl]

/-- Both hold of a machine between two cycles. -/
structure OplTraced (s : State) : Prop where
  fetched : OplFetched s.D
  decoded : OplDecoded s.E

theorem OplTraced.setupyess (u : Undetermined) (memory : Memory) :
    OplTraced (setupyess u memory) := by
  constructor
  · exact fun opl => nomatch opl
  · exact fun opl => nomatch opl

theorem OplTraced.cycle {s : State} (traced : OplTraced s) (running : ¬ Stopping s) :
    OplTraced (cycle s) := by
  rw [cycle_running (not_not.mp running)]
  constructor
  · dsimp only
    split
    · exact fun opl => nomatch opl
    · split
      · exact fetchInstruction_opl _ _
      · exact traced.fetched
  · dsimp only
    split
    · exact fun opl => nomatch opl
    · exact decoded_opl traced.fetched

/-- In every reachable machine, an `OPL` past fetch either has its register byte
or has two zero operands. -/
theorem oplTraced_of_runs {u : Undetermined} {memory : Memory} {count : Nat}
    (runs : Runs (setupyess u memory) count) :
    OplTraced (cycle^[count] (setupyess u memory)) := by
  have kept : ∀ (_ : Nat) (s : State), OplTraced s → ¬ Stopping s → OplTraced (Yess.cycle s) :=
    fun _ _ traced running => traced.cycle running
  exact RunsFor.induction (OplTraced.setupyess u memory) kept runs

/-- The `OPL` in E faults, and the flags of its operands are not the ones it finds:
an undefined function code clears the codes, a missing register byte leaves two
zero operands. -/
def FaultyOpl (s : State) : Prop :=
  s.E.icode = .opl ∧
    ((s.E.ifun.toNat > 3 ∧ s.CC ≠ flags false false false) ∨
      (s.E.ifun.toNat ≤ 3 ∧ s.E.stat = .sadr ∧ s.CC ≠ flags true false false))

theorem oplFlags_undefined {E : Eregister} (undefined : E.ifun.toNat > 3) :
    oplFlags E = flags false false false := by
  obtain ⟨add, sub, and, xor⟩ := (undefined_iff E.ifun).mp undefined
  simp only [oplFlags, add, sub, and, xor, if_false]

theorem oplFlags_zero {E : Eregister} (defined : E.ifun.toNat ≤ 3) (valA : E.valA = 0)
    (valB : E.valB = 0) : oplFlags E = flags true false false := by
  have known := (not_congr (undefined_iff E.ifun)).mp (not_lt.mpr defined)
  unfold oplFlags
  rw [valA, valB]
  by_cases add : E.ifun = addl
  · rw [if_pos add]
    rfl
  · by_cases sub : E.ifun = subl
    · rw [if_neg add, if_pos sub]
      rfl
    · by_cases and : E.ifun = andl
      · rw [if_neg add, if_neg sub, if_pos and]
        rfl
      · have xor : E.ifun = xorl := not_not.mp fun xor => known ⟨add, sub, and, xor⟩
        rw [if_neg add, if_neg sub, if_neg and, if_pos xor]
        rfl

/-- One execution with nothing exceptional ahead: an `OPL` that leaves it with a
fault leaves the codes alone unless its flags are not already there. -/
theorem execute_CC_iff {s : State} (decoded : OplDecoded s.E) (opl : s.E.icode = .opl) :
    (((execute s.E true s.CC).M.stat = .sadr ∨ (execute s.E true s.CC).M.stat = .sins) →
      (execute s.E true s.CC).CC = s.CC) ↔ ¬ FaultyOpl s := by
  unfold FaultyOpl
  rw [execute_stat, execute_CC, if_pos opl, performOpl_CC]
  simp only [opl, true_and, not_or, not_and, not_not]
  by_cases undefined : s.E.ifun.toNat > 3
  · have known : ¬ s.E.ifun.toNat ≤ 3 := not_le.mpr undefined
    rw [if_pos undefined, oplFlags_undefined undefined]
    simp only [undefined, known, true_imp_iff, false_imp_iff, and_true]
    constructor
    · intro unchanged
      exact (unchanged (Or.inr trivial)).symm
    · intro unchanged _
      exact unchanged.symm
  · have known : s.E.ifun.toNat ≤ 3 := not_lt.mp undefined
    rw [if_neg undefined]
    simp only [undefined, known, true_imp_iff, false_imp_iff, true_and]
    obtain ok | ⟨fault, valA, valB⟩ := decoded opl
    · simp [ok]
    · rw [oplFlags_zero known valA valB, fault]
      constructor
      · intro unchanged _
        exact (unchanged (Or.inl rfl)).symm
      · intro unchanged _
        exact (unchanged rfl).symm

theorem access_stat_opl {s : State} (opl : s.M.icode = .opl) : s.access.stat = s.M.stat := by
  rw [State.access, memoryAccess_stat]
  simp [memRead, memWrite, opl]

theorem cycle_execution {s : State} (running : ¬ Stopping s) (next : ¬ Stopping (cycle s)) :
    (cycle s).M = (execute s.E true s.CC).M ∧ (cycle s).CC = (execute s.E true s.CC).CC := by
  have access : s.access.stat.exceptional = false := by
    rw [Stat.exceptional_eq_false_iff, ← cycle_W_stat running]
    exact not_not.mp next
  have execution : s.execution = execute s.E true s.CC := by
    rw [State.execution, access]
    rfl
  rw [cycle_running (not_not.mp running), ← execution]
  refine ⟨?_, rfl⟩
  dsimp only
  rw [access]
  rfl

/-- For every program and every cycle of the loop: when the instruction that is in
E reaches W with `SADR` or `SINS`, the condition codes are those it found in E, if
and only if it is not a faulty `OPL` that finds other flags than its own. -/
theorem faulting_CC_iff (u : Undetermined) (memory : Memory) (count : Nat)
    (runs : Runs (setupyess u memory) (count + 2)) :
    (((cycle^[count + 2] (setupyess u memory)).W.stat = .sadr ∨
        (cycle^[count + 2] (setupyess u memory)).W.stat = .sins) →
      (cycle^[count + 2] (setupyess u memory)).CC =
        (cycle^[count] (setupyess u memory)).CC) ↔
      ¬ FaultyOpl (cycle^[count] (setupyess u memory)) := by
  have traced := oplTraced_of_runs (runs.of_le (Nat.le_add_right count 2))
  have running := runs count (by omega)
  have next := runs (count + 1) (by omega)
  rw [Function.iterate_succ_apply' _ (count + 1)]
  rw [Function.iterate_succ_apply' _ count] at next ⊢
  generalize cycle^[count] (setupyess u memory) = s at *
  obtain ⟨M, CC⟩ := cycle_execution running next
  -- Behind a fault in the memory stage the codes stay for one more cycle.
  have still (stops : Stopping (cycle (cycle s))) :
      (cycle (cycle s)).CC = (execute s.E true s.CC).CC :=
    (frozen_before next stops).2.2.trans CC
  have exceptional (fault : (cycle (cycle s)).W.stat = .sadr ∨ (cycle (cycle s)).W.stat = .sins) :
      Stopping (cycle (cycle s)) := by
    rcases fault with sadr | sins
    · simp [Stopping, sadr]
    · simp [Stopping, sins]
  by_cases opl : s.E.icode = .opl
  · have stat : (cycle (cycle s)).W.stat = (execute s.E true s.CC).M.stat := by
      have code : (cycle s).M.icode = .opl := by
        rw [M]
        exact opl
      rw [cycle_W_stat next, access_stat_opl code, M]
    rw [← execute_CC_iff traced.decoded opl, ← stat]
    constructor
    · intro unchanged fault
      exact (still (exceptional fault)).symm.trans (unchanged fault)
    · intro unchanged fault
      exact (still (exceptional fault)).trans (unchanged fault)
  · refine iff_of_true (fun fault => ?_) fun faulty => opl faulty.1
    rw [still (exceptional fault), execute_CC, if_neg opl]

/-- An `addl` of zeros, which sets the zero flag, and an `OPL` with function code 4. -/
def addlThenUndefined : Memory := fun place => if place.val = 0 then 0x00640060 else 0

/-- The undefined `OPL` reaches W with `SINS` and has cleared the zero flag. -/
theorem faulting_CC_addlThenUndefined :
    Runs (setupyess .zero addlThenUndefined) (3 + 2) ∧
      (cycle^[3 + 2] (setupyess .zero addlThenUndefined)).W.stat = .sins ∧
      (cycle^[3 + 2] (setupyess .zero addlThenUndefined)).CC ≠
        (cycle^[3] (setupyess .zero addlThenUndefined)).CC := by
  refine ⟨by decide +kernel, by decide +kernel, by decide +kernel⟩

/-- The iff at the cycle of that `OPL`. -/
theorem faulting_CC_iff_addlThenUndefined :
    (((cycle^[3 + 2] (setupyess .zero addlThenUndefined)).W.stat = .sadr ∨
        (cycle^[3 + 2] (setupyess .zero addlThenUndefined)).W.stat = .sins) →
      (cycle^[3 + 2] (setupyess .zero addlThenUndefined)).CC =
        (cycle^[3] (setupyess .zero addlThenUndefined)).CC) ↔
      ¬ FaultyOpl (cycle^[3] (setupyess .zero addlThenUndefined)) :=
  faulting_CC_iff .zero addlThenUndefined 3 (by decide +kernel)

end Yess
