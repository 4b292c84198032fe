import Mathlib.Algebra.BigOperators.Ring.Finset
import Mathlib.Algebra.Group.Nat.Even
import Mathlib.Data.Nat.Count
import Yess.ConditionCodes
import Yess.Pipeline.Instructions
import Yess.Pipeline.Phase

/-!
# The cycle count

The cycles of a well-behaved program, from its sequential run: one an instruction,
four to fill and drain the pipeline, and the ones lost to load/use hazards,
mispredicted branches and returns.  `clockCount` is this number as long as it fits
an `int`.
-/

namespace Yess

open Lib.Iteration Lib.Schedule

namespace SeqState

def IsLoad (σ : SeqState) : Prop :=
  σ.instruction.icode = .mrmovl ∨ σ.instruction.icode = .popl

instance (σ : SeqState) : Decidable σ.IsLoad := inferInstanceAs (Decidable (_ ∨ _))

def IsRet (σ : SeqState) : Prop := σ.instruction.icode = .ret

instance (σ : SeqState) : Decidable σ.IsRet := inferInstanceAs (Decidable (_ = _))

/-- The register that the instruction of `σ` loads is a source of the instruction of `τ`. -/
def LoadsSourceOf (σ τ : SeqState) : Prop :=
  σ.IsLoad ∧ IsRegister σ.instruction.rA ∧
    (σ.instruction.rA = getSrcA τ.instruction ∨ σ.instruction.rA = getSrcB τ.instruction)

instance (σ τ : SeqState) : Decidable (σ.LoadsSourceOf τ) :=
  inferInstanceAs (Decidable (_ ∧ _ ∧ _))

theorem loadUse_iff_loadsSourceOf {σ τ : SeqState}
    (loads : σ.IsLoad → IsRegister σ.instruction.rA) : σ.LoadUse τ ↔ σ.LoadsSourceOf τ := by
  unfold LoadUse LoadsSourceOf
  refine and_congr_right fun load => ?_
  rw [getDstM, if_pos load]
  constructor
  · intro source
    exact ⟨loads load, source⟩
  · intro source
    exact source.2

end SeqState

/-- The gap behind an instruction adds up three kinds of lost cycles. -/
theorem gap_eq {memory : Memory} {index : Nat}
    (loads : (seqAt memory index).IsLoad → IsRegister (seqAt memory index).instruction.rA) :
    gap memory index =
      (if (seqAt memory index).LoadsSourceOf (seqAt memory (index + 1)) then 1 else 0) +
        2 * (if (seqAt memory index).Mispredicted then 1 else 0) +
        3 * (if (seqAt memory index).IsRet then 1 else 0) := by
  unfold gap
  simp only [SeqState.loadUse_iff_loadsSourceOf loads]
  by_cases ret : (seqAt memory index).instruction.icode = .ret
  · have notMispredicted : ¬ (seqAt memory index).Mispredicted := by
      rintro ⟨jump, -⟩
      rw [ret] at jump
      exact nomatch jump
    have notLoad : ¬ (seqAt memory index).LoadsSourceOf (seqAt memory (index + 1)) := by
      rintro ⟨mrmovl | popl, -⟩
      · exact nomatch ret.symm.trans mrmovl
      · exact nomatch ret.symm.trans popl
    rw [if_pos ret, if_neg notLoad, if_neg notMispredicted, if_pos (show SeqState.IsRet _ from ret)]
  · rw [if_neg ret, if_neg (show ¬ SeqState.IsRet _ from ret)]
    by_cases mispredicted : (seqAt memory index).Mispredicted
    · have notLoad : ¬ (seqAt memory index).LoadsSourceOf (seqAt memory (index + 1)) := by
        rintro ⟨mrmovl | popl, -⟩
        · exact nomatch mispredicted.1.symm.trans mrmovl
        · exact nomatch mispredicted.1.symm.trans popl
      rw [if_pos mispredicted, if_pos mispredicted, if_neg notLoad]
    · rw [if_neg mispredicted, if_neg mispredicted]
      rfl

theorem sum_weight_eq_count (weight : Nat) (Kind : Nat → Prop) [DecidablePred Kind] (bound : Nat) :
    ∑ item ∈ Finset.range bound, weight * (if Kind item then 1 else 0) =
      weight * Nat.count Kind bound := by
  rw [← Finset.mul_sum, Finset.sum_boole, Nat.count_eq_card_filter_range]
  rfl

/-- The cycle in which an instruction is in E, from the instructions before it. -/
theorem entryTime_eq {memory : Memory} {index : Nat}
    (loads : ∀ before < index, (seqAt memory before).IsLoad →
      IsRegister (seqAt memory before).instruction.rA) :
    entryTime memory index = 2 + index +
      (Nat.count (fun i => (seqAt memory i).LoadsSourceOf (seqAt memory (i + 1))) index +
        2 * Nat.count (fun i => (seqAt memory i).Mispredicted) index +
        3 * Nat.count (fun i => (seqAt memory i).IsRet) index) := by
  unfold entryTime
  rw [entry_eq]
  congr 1
  have kinds (before : Nat) (below : before ∈ Finset.range index) :=
    gap_eq (loads before (Finset.mem_range.mp below))
  rw [Finset.sum_congr rfl kinds, Finset.sum_add_distrib, Finset.sum_add_distrib,
    sum_weight_eq_count 2, sum_weight_eq_count 3]
  congr 2
  simpa only [Nat.one_mul] using
    sum_weight_eq_count 1 (fun i => (seqAt memory i).LoadsSourceOf (seqAt memory (i + 1))) index

/-- The number of cycles of a run that ends at instruction number `index`, its
`index + 1`-st: one for each instruction, four more, one for each load whose register
the next instruction reads, two for each mispredicted branch, three for each return. -/
def runCycles (memory : Memory) (index : Nat) : Nat :=
  (index + 1) + 4 +
    Nat.count (fun i => (seqAt memory i).LoadsSourceOf (seqAt memory (i + 1))) index +
    2 * Nat.count (fun i => (seqAt memory i).Mispredicted) index +
    3 * Nat.count (fun i => (seqAt memory i).IsRet) index

theorem lt_runCycles (memory : Memory) (index : Nat) : index < runCycles memory index := by
  unfold runCycles
  omega

section

variable {u : Undetermined} {memory : Memory} (well : WellBehaved memory) {index : Nat}
  (stops : SeqStopsAt memory index)
include well stops

theorem cycles_eq
    (loads : ∀ before < index, (seqAt memory before).IsLoad →
      IsRegister (seqAt memory before).instruction.rA)
    {last : Loop} (exits : Exits (setupyess u memory) last) :
    last.cycles = runCycles memory index ∧
      last.clockCount = BitVec.ofNat 32 (runCycles memory index) := by
  obtain ⟨count, stopsAt, -, cycles, clock⟩ := exits.spec
  have number : count + 1 = runCycles memory index := by
    rw [stopsAt.unique (stopsAt_entryTime well u stops), entryTime_eq loads, runCycles]
    omega
  rw [← number]
  exact ⟨cycles, clock⟩

end

theorem toInt_ofNat_eq_iff (number : Nat) :
    (BitVec.ofNat 32 number).toInt = number ↔ (number : Int) ≤ intMax := by
  rw [BitVec.toInt_ofNat', Int.bmod_def]
  simp only [intMax]
  split <;> omega

/-- The main loop of a well-behaved program that stops is left, and the clock has then
counted its cycles exactly when their number fits an `int`. -/
theorem clockCount_iff (u : Undetermined) (memory : Memory) (well : WellBehaved memory)
    (index : Nat) (stops : SeqStopsAt memory index)
    (loads : ∀ before < index, (seqAt memory before).IsLoad →
      IsRegister (seqAt memory before).instruction.rA) :
    (∃ last, Exits (setupyess u memory) last) ∧
      ∀ last, Exits (setupyess u memory) last →
        (last.clockCount.toInt = runCycles memory index ↔
          (runCycles memory index : Int) ≤ intMax) := by
  refine ⟨exits_of_stopsAt (stopsAt_entryTime well u stops), fun last exits => ?_⟩
  rw [(cycles_eq well stops loads exits).2]
  exact toInt_ofNat_eq_iff _

/-- A program with each kind of lost cycle: `irmovl $0x100,%esp`, `call 12`, `halt`
at 11, and from 12 on `pushl %eax`, `popl %ecx`, `addl %ecx,%ecx`, `jne 11`, `ret`. -/
def lostCycles : Memory := fun place =>
  if place.val = 0 then 0x0100F430
  else if place.val = 1 then 0x0C800000
  else if place.val = 2 then 0x00000000
  else if place.val = 3 then 0x1FB00FA0
  else if place.val = 4 then 0x0B741160
  else if place.val = 5 then 0x90000000
  else 0

theorem lostCycles_stopsAt : SeqStopsAt lostCycles 7 := by decide +kernel

/-- The cycles of this program are `8 + 4 + 1 + 2 + 3`. -/
theorem clockCount_lostCycles :
    runCycles lostCycles 7 = 18 ∧ (∃ last, Exits (setupyess .zero lostCycles) last) ∧
      ∀ last, Exits (setupyess .zero lostCycles) last →
        (last.clockCount.toInt = runCycles lostCycles 7 ↔
          (runCycles lostCycles 7 : Int) ≤ intMax) := by
  have well : WellBehaved lostCycles := wellBehaved_of_stopsAt lostCycles_stopsAt
    (by decide +kernel) (by decide +kernel) (by decide +kernel)
  exact ⟨by decide +kernel, clockCount_iff .zero lostCycles well 7 lostCycles_stopsAt
    (by decide +kernel)⟩

/-! ## A run that is too long -/

/-- `irmovl $1,%ecx`, then a loop of `addl %ecx,%eax` at 6 and `jne 6`, and `halt` at
13: `%eax` counts up until it is zero again. -/
def countAround : Memory := fun place =>
  if place.val = 0 then 0x0001F130
  else if place.val = 1 then 0x10600000
  else if place.val = 2 then 0x00000674
  else 0

namespace CountAround

def places : List Word := [0, 6, 8, 13]

/-- The program is at one of its instructions. -/
structure Inside (σ : SeqState) : Prop where
  pc : σ.pc ∈ places
  memory : σ.memory = countAround

/-- The program is at `pc`, and the loop has counted to `count`. -/
structure At (pc : Word) (count : Nat) (σ : SeqState) : Prop where
  pc : σ.pc = pc
  memory : σ.memory = countAround
  eax : σ.reg 0 = BitVec.ofNat 32 count
  ecx : σ.reg 1 = 1

variable {σ : SeqState} {count : Nat}

theorem instruction_eq {pc : Word} (isPC : σ.pc = pc) (memory : σ.memory = countAround) :
    σ.instruction = fetchInstruction countAround pc := by
  rw [SeqState.instruction, memory, isPC]

theorem Inside.instruction (inside : Inside σ) :
    (σ.pc = 0 ∧ σ.instruction = ⟨.saok, .irmovl, 0, rNone, 1, 1, 6⟩) ∨
      (σ.pc = 6 ∧ σ.instruction = ⟨.saok, .opl, addl, 1, 0, 0, 8⟩) ∨
      (σ.pc = 8 ∧ σ.instruction = ⟨.saok, .jxx, cmovne, rNone, rNone, 6, 13⟩) ∨
      (σ.pc = 13 ∧ σ.instruction = ⟨.shlt, .halt, 0, rNone, rNone, 0, 14⟩) := by
  have at_ {pc : Word} (isPC : σ.pc = pc) := instruction_eq isPC inside.memory
  have cases := inside.pc
  simp only [places, List.mem_cons, List.not_mem_nil, or_false] at cases
  rcases cases with pc | pc | pc | pc
  · exact Or.inl ⟨pc, (at_ pc).trans (by decide +kernel)⟩
  · exact Or.inr (Or.inl ⟨pc, (at_ pc).trans (by decide +kernel)⟩)
  · exact Or.inr (Or.inr (Or.inl ⟨pc, (at_ pc).trans (by decide +kernel)⟩))
  · exact Or.inr (Or.inr (Or.inr ⟨pc, (at_ pc).trans (by decide +kernel)⟩))

theorem At.add (loop : At 6 count σ) :
    At 8 (count + 1) σ.next ∧
      getCC zf σ.next.CC = if BitVec.ofNat 32 (count + 1) = 0 then 1 else 0 := by
  have instr : σ.instruction = ⟨.saok, .opl, addl, 1, 0, 0, 8⟩ :=
    (instruction_eq loop.pc loop.memory).trans (by decide +kernel)
  have code : σ.instruction.icode = .opl := by rw [instr]
  have sum : σ.operands.valB + σ.operands.valA = BitVec.ofNat 32 (count + 1) := by
    have valA : σ.operands.valA = σ.reg 1 := by simp [SeqState.operands, instr, getSrcA]
    have valB : σ.operands.valB = σ.reg 0 := by simp [SeqState.operands, instr, getSrcB]
    rw [valA, valB, loop.eax, loop.ecx, BitVec.ofNat_add]
    rfl
  have add : σ.operands.ifun = addl := by simp [SeqState.operands, instr]
  have valE : (performOpl σ.operands true σ.CC).valE = BitVec.ofNat 32 (count + 1) := by
    rw [← sum]
    unfold performOpl
    simp [add]
  have CC : (performOpl σ.operands true σ.CC).CC = oplFlags σ.operands := performOpl_CC _ _
  rw [SeqState.next_opl code, instr, valE, CC]
  refine ⟨⟨rfl, loop.memory, ?_, ?_⟩, ?_⟩
  · rfl
  · exact loop.ecx
  · unfold oplFlags
    rw [if_pos add, sum, getCC_zf_flags]
    simp

/-- The loop is entered again unless the sum is zero. -/
theorem At.jump (loop : At 8 count σ)
    (zero : getCC zf σ.CC = if BitVec.ofNat 32 count = 0 then 1 else 0) :
    At (if BitVec.ofNat 32 count = 0 then 13 else 6) count σ.next := by
  have instr : σ.instruction = ⟨.saok, .jxx, cmovne, rNone, rNone, 6, 13⟩ :=
    (instruction_eq loop.pc loop.memory).trans (by decide +kernel)
  have code : σ.instruction.icode = .jxx := by rw [instr]
  have taken : σ.Taken ↔ ¬ BitVec.ofNat 32 count = 0 := by
    unfold SeqState.Taken
    rw [instr, zero]
    by_cases isZero : BitVec.ofNat 32 count = 0
    · rw [if_pos isZero]
      exact iff_of_false (by simp [condition]) (not_not.mpr isZero)
    · rw [if_neg isZero]
      exact iff_of_true (by simp [condition]) isZero
  rw [SeqState.next_jxx code, instr]
  refine ⟨?_, loop.memory, loop.eax, loop.ecx⟩
  by_cases isZero : BitVec.ofNat 32 count = 0
  · rw [if_pos isZero]
    exact if_neg fun jumps => taken.mp jumps isZero
  · rw [if_neg isZero]
    exact if_pos (taken.mpr isZero)

abbrev last : Nat := 8589934593

theorem at_six {count : Nat} (small : count < 2 ^ 32) :
    At 6 count (seqAt countAround (2 * count + 1)) := by
  induction count with
  | zero =>
      have instr : (SeqState.start countAround).instruction = ⟨.saok, .irmovl, 0, rNone, 1, 1, 6⟩ :=
        (instruction_eq rfl rfl).trans (by decide +kernel)
      have code : (SeqState.start countAround).instruction.icode = .irmovl := by rw [instr]
      change At 6 0 (SeqState.start countAround).next
      rw [SeqState.next_irmovl code, instr]
      exact ⟨rfl, rfl, rfl, rfl⟩
  | succ count ih =>
      obtain ⟨sum, zero⟩ := (ih (by omega)).add
      have nonzero : ¬ BitVec.ofNat 32 (count + 1) = 0 := by
        intro isZero
        have number := congrArg BitVec.toNat isZero
        rw [BitVec.toNat_ofNat, Nat.mod_eq_of_lt small] at number
        exact absurd number (Nat.succ_ne_zero count)
      have again := sum.jump zero
      rw [if_neg nonzero] at again
      rw [show 2 * (count + 1) + 1 = 2 * count + 1 + 1 + 1 by omega, seqAt_succ, seqAt_succ]
      exact again

theorem at_eight {count : Nat} (small : count < 2 ^ 32) :
    At 8 (count + 1) (seqAt countAround (2 * count + 2)) := by
  rw [show 2 * count + 2 = 2 * count + 1 + 1 by omega, seqAt_succ]
  exact (at_six small).add.1

theorem at_last : At 13 (2 ^ 32) (seqAt countAround last) := by
  obtain ⟨sum, zero⟩ := (at_six (show 2 ^ 32 - 1 < 2 ^ 32 by decide)).add
  have out := sum.jump zero
  rw [← seqAt_succ, ← seqAt_succ] at out
  exact out

theorem At.inside {pc : Word} (reached : At pc count σ) (place : pc ∈ places) : Inside σ :=
  ⟨reached.pc ▸ place, reached.memory⟩

/-- Before the `halt` the program is at one of the other three instructions. -/
theorem before_last {index : Nat} (below : index < last) :
    Inside (seqAt countAround index) ∧ (seqAt countAround index).pc ≠ 13 := by
  rcases index with _ | index
  · exact ⟨⟨by decide, rfl⟩, by decide⟩
  · rcases Nat.even_or_odd' index with ⟨count, rfl | rfl⟩
    · have loop := at_six (show count < 2 ^ 32 by simp only [last] at below; omega)
      exact ⟨loop.inside (by decide), loop.pc ▸ by decide⟩
    · have loop := at_eight (show count < 2 ^ 32 by simp only [last] at below; omega)
      exact ⟨loop.inside (by decide), loop.pc ▸ by decide⟩

theorem inside_of_le {index : Nat} (le : index ≤ last) : Inside (seqAt countAround index) := by
  rcases Nat.lt_or_eq_of_le le with below | rfl
  · exact (before_last below).1
  · exact at_last.inside (by decide)

theorem Inside.noAccess (inside : Inside σ) :
    memRead σ.executed.M = false ∧ memWrite σ.executed.M = false := by
  unfold memRead memWrite
  rw [SeqState.executed_icode]
  rcases inside.instruction with ⟨-, instr⟩ | ⟨-, instr⟩ | ⟨-, instr⟩ | ⟨-, instr⟩ <;>
    (rw [instr]; decide)

theorem Inside.uses (inside : Inside σ) : σ.UsesRegisters := by
  rw [SeqState.usesRegisters_iff]
  rcases inside.instruction with ⟨-, instr⟩ | ⟨-, instr⟩ | ⟨-, instr⟩ | ⟨-, instr⟩ <;>
    (rw [instr]; decide)

theorem Inside.bytes (inside : Inside σ) : σ.BytesInside := by
  unfold SeqState.BytesInside
  rcases inside.instruction with ⟨pc, instr⟩ | ⟨pc, instr⟩ | ⟨pc, instr⟩ | ⟨pc, instr⟩ <;>
    (rw [instr, pc]; decide)

theorem Inside.stops_iff (inside : Inside σ) : σ.Stops ↔ σ.pc = 13 := by
  have noData := SeqState.dataRejected_eq_false inside.noAccess.1 inside.noAccess.2
  have first : ¬ σ.FirstByteOutside := by
    have bytes := inside.bytes
    have long := instructionLength_pos σ.instruction.icode
    unfold SeqState.BytesInside at bytes
    exact not_not.mpr ⟨bytes.1, by omega⟩
  unfold SeqState.Stops SeqState.status
  rw [if_neg first, noData]
  rcases inside.instruction with ⟨pc, instr⟩ | ⟨pc, instr⟩ | ⟨pc, instr⟩ | ⟨pc, instr⟩ <;>
    (rw [instr, pc]; decide)

theorem Inside.noLoad (inside : Inside σ) : ¬ σ.IsLoad := by
  unfold SeqState.IsLoad
  rcases inside.instruction with ⟨-, instr⟩ | ⟨-, instr⟩ | ⟨-, instr⟩ | ⟨-, instr⟩ <;>
    (rw [instr]; decide)

theorem stopsAt : SeqStopsAt countAround last :=
  ⟨fun _ below stops => (before_last below).2 ((before_last below).1.stops_iff.mp stops),
    (inside_of_le (Nat.le_refl _)).stops_iff.mpr at_last.pc⟩

theorem wellBehaved : WellBehaved countAround := by
  refine wellBehaved_of_stopsAt stopsAt (fun index le => (inside_of_le le).uses)
    (fun index le => Or.inr (inside_of_le le).bytes) fun index le => ⟨?_, ?_⟩
  · intro write
    rw [(inside_of_le le).noAccess.2] at write
    exact absurd write Bool.false_ne_true
  · intro write
    rw [(inside_of_le le).noAccess.2] at write
    exact absurd write Bool.false_ne_true

end CountAround

/-- The loop of this program is run `2 ^ 32` times, and the clock does not count its
cycles. -/
theorem clockCount_countAround :
    WellBehaved countAround ∧ SeqStopsAt countAround CountAround.last ∧
      (∀ before < CountAround.last, ¬ (seqAt countAround before).IsLoad) ∧
      (∃ last, Exits (setupyess .zero countAround) last) ∧
      ∀ last, Exits (setupyess .zero countAround) last →
        last.clockCount.toInt ≠ runCycles countAround CountAround.last := by
  have well := CountAround.wellBehaved
  have stops := CountAround.stopsAt
  have noLoads (before : Nat) (below : before < CountAround.last) :
      ¬ (seqAt countAround before).IsLoad :=
    (CountAround.inside_of_le (Nat.le_of_lt below)).noLoad
  refine ⟨well, stops, noLoads, exits_of_stopsAt (stopsAt_entryTime well .zero stops),
    fun last _ => ?_⟩
  have bound := (toInt_bounds last.clockCount).2
  have long := lt_runCycles countAround CountAround.last
  generalize runCycles countAround CountAround.last = cycles at long ⊢
  simp only [intMax, CountAround.last] at bound long
  omega

end Yess
