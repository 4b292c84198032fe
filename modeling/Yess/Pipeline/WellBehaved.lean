import Yess.Pipeline.Seq

/-!
# Well-behaved programs

A pipeline that fetches ahead can follow the sequential machine only on programs
that do not change the instructions it has fetched.  This file says what is
asked of a program, and derives the two facts the simulation needs: an
instruction fetched early is the instruction, and the status the stages compute
is the status of the sequential machine.
-/

namespace Yess

open Lib.ByteStore

def CoversByte (pc : Word) (icode : Icode) (address : Int) : Prop :=
  pc.toInt ≤ address ∧ address < pc.toInt + instructionLength icode

/-- A register id that names a register, or none. -/
def ProperId (reg : Rregister) : Prop := IsRegister reg ∨ reg = rNone

instance (reg : Rregister) : Decidable (ProperId reg) := inferInstanceAs (Decidable (_ ∨ _))

theorem instructionLength_pos (icode : Icode) : 0 < instructionLength icode := by
  unfold instructionLength
  omega

namespace SeqState

def BytesInside (σ : SeqState) : Prop :=
  0 ≤ σ.pc.toInt ∧ σ.pc.toInt + instructionLength σ.instruction.icode ≤ 65536

instance (σ : SeqState) : Decidable σ.BytesInside := inferInstanceAs (Decidable (_ ∧ _))

/-- The instruction uses only the eight registers and the id for none. -/
structure UsesRegisters (σ : SeqState) : Prop where
  srcA : ProperId (getSrcA σ.instruction)
  srcB : ProperId (getSrcB σ.instruction)
  dstE : ProperId (getDstE σ.instruction)
  dstM : ProperId (getDstM σ.instruction)

/-- The instruction of `σ` stores to no byte of the instruction of `τ`. -/
def StoresApart (σ τ : SeqState) : Prop :=
  memWrite σ.executed.M = true → ∀ address,
    (selectMemoryAddr σ.executed.M).toInt ≤ address →
    address < (selectMemoryAddr σ.executed.M).toInt + 4 →
    ¬ CoversByte τ.pc τ.instruction.icode address

theorem usesRegisters_iff (σ : SeqState) :
    σ.UsesRegisters ↔
      ProperId (getSrcA σ.instruction) ∧ ProperId (getSrcB σ.instruction) ∧
        ProperId (getDstE σ.instruction) ∧ ProperId (getDstM σ.instruction) :=
  ⟨fun uses => ⟨uses.srcA, uses.srcB, uses.dstE, uses.dstM⟩,
    fun ⟨srcA, srcB, dstE, dstM⟩ => ⟨srcA, srcB, dstE, dstM⟩⟩

instance (σ : SeqState) : Decidable σ.UsesRegisters :=
  decidable_of_iff' _ σ.usesRegisters_iff

theorem storesApart_iff (σ τ : SeqState) :
    σ.StoresApart τ ↔
      (memWrite σ.executed.M = true →
        (selectMemoryAddr σ.executed.M).toInt + 4 ≤ τ.pc.toInt ∨
          τ.pc.toInt + instructionLength τ.instruction.icode ≤
            (selectMemoryAddr σ.executed.M).toInt) := by
  unfold StoresApart CoversByte
  have long := instructionLength_pos τ.instruction.icode
  generalize (selectMemoryAddr σ.executed.M).toInt = address
  generalize τ.pc.toInt = pc
  refine imp_congr_right fun write => ?_
  constructor
  · intro apart
    by_contra overlap
    rcases Int.le_total address pc with before | behind
    · exact apart pc before (by omega) (by omega)
    · exact apart address (by omega) (by omega) (by omega)
  · intro disjoint
    omega

instance (σ τ : SeqState) : Decidable (σ.StoresApart τ) :=
  decidable_of_iff' _ (σ.storesApart_iff τ)

end SeqState

/-- What the simulation asks of the instructions that the sequential machine gets
to, the one it stops at included. -/
structure WellBehaved (memory : Memory) : Prop where
  uses : ∀ index, Reaches memory index → (seqAt memory index).UsesRegisters
  bytes : ∀ index, Reaches memory index →
    (seqAt memory index).FirstByteOutside ∨ (seqAt memory index).BytesInside
  apart : ∀ index later, later = index + 1 ∨ later = index + 2 → Reaches memory later →
    (seqAt memory index).StoresApart (seqAt memory later)

/-- For a program that stops, there are finitely many instructions to check. -/
theorem wellBehaved_of_stopsAt {memory : Memory} {last : Nat} (stops : SeqStopsAt memory last)
    (uses : ∀ index ≤ last, (seqAt memory index).UsesRegisters)
    (bytes : ∀ index ≤ last, (seqAt memory index).FirstByteOutside ∨
      (seqAt memory index).BytesInside)
    (apart : ∀ index ≤ last, (seqAt memory index).StoresApart (seqAt memory (index + 1)) ∧
      (seqAt memory index).StoresApart (seqAt memory (index + 2))) :
    WellBehaved memory where
  uses index reached := uses index (stops.le_of_runsFor reached)
  bytes index reached := bytes index (stops.le_of_runsFor reached)
  apart index later next reached := by
    have bound := stops.le_of_runsFor reached
    obtain ⟨one, two⟩ := apart index (by omega)
    rcases next with rfl | rfl
    · exact one
    · exact two

/-! ## Instructions that stores leave alone -/

namespace SeqState

theorem FirstByteOutside.instruction_eq {σ : SeqState} (outside : σ.FirstByteOutside) :
    σ.instruction = ⟨.sadr, .nop, fNone, rNone, rNone, 0, σ.pc + 1⟩ := by
  have refused : getByte σ.memory σ.pc.toInt = (0, true) := by
    rw [getByte_eq]
    exact if_neg outside
  unfold instruction fetchInstruction
  rw [refused]
  rfl

theorem coversByte_offset {σ : SeqState} (bytes : σ.FirstByteOutside ∨ σ.BytesInside)
    {offset : Nat} (small : offset < instructionLength σ.instruction.icode) :
    CoversByte σ.pc σ.instruction.icode (σ.pc + BitVec.ofNat 32 offset).toInt := by
  rcases bytes with outside | inside
  · rw [outside.instruction_eq] at small ⊢
    obtain rfl : offset = 0 := Nat.lt_one_iff.mp small
    rw [BitVec.add_zero]
    exact ⟨Int.le_refl _, by simp [instructionLength, needRegids, needValC]⟩
  · rw [toInt_add_ofNat inside small]
    unfold CoversByte
    omega

theorem BytesInside.instruction_stat {σ : SeqState} (inside : σ.BytesInside) :
    σ.instruction.stat =
      if !instructionValid σ.instruction.icode then .sins
      else if σ.instruction.icode = .halt then .shlt
      else .saok := by
  refine fetchInstruction_stat fun offset small => ?_
  have range : InRange 65536 (σ.pc + BitVec.ofNat 32 offset).toInt := by
    rw [toInt_add_ofNat inside small]
    have lower := inside.1
    have upper := inside.2
    change offset < instructionLength σ.instruction.icode at small
    unfold InRange
    omega
  rw [getByte_eq, readByte, if_pos range]

/-- The memory after an instruction is the memory before it, or a store went through. -/
theorem accessed_memory (σ : SeqState) :
    σ.accessed.memory =
      if memWrite σ.executed.M = true then
        (putWord σ.memory (selectMemoryAddr σ.executed.M).toInt σ.executed.M.valA).1
      else σ.memory := by
  unfold accessed memoryAccess
  dsimp only
  split <;> rfl

/-- An instruction that does not store over another one leaves its bytes alone. -/
theorem StoresApart.fetchInstruction_eq {σ τ : SeqState} (apart : σ.StoresApart τ)
    (bytes : τ.FirstByteOutside ∨ τ.BytesInside)
    (fetched : fetchInstruction σ.accessed.memory τ.pc = τ.instruction) :
    fetchInstruction σ.memory τ.pc = τ.instruction := by
  rw [← fetched]
  refine fetchInstruction_congr fun offset small => ?_
  rw [fetched] at small
  rw [accessed_memory]
  split
  · case isTrue write =>
      refine (getByte_putWord fun within => ?_).symm
      exact apart write _ within.1 within.2 (coversByte_offset bytes small)
  · rfl

/-! ## The status of an instruction -/

theorem executed_icode (σ : SeqState) : σ.executed.M.icode = σ.instruction.icode := rfl

theorem dataRejected_eq_false {σ : SeqState} (noRead : memRead σ.executed.M = false)
    (noWrite : memWrite σ.executed.M = false) : σ.dataRejected = false := by
  simp only [dataRejected, noRead, noWrite, Bool.false_and, Bool.or_self]

theorem accessed_stat (σ : SeqState) :
    σ.accessed.stat =
      if σ.dataRejected then .sadr
      else if σ.instruction.icode = .opl ∧ σ.instruction.ifun.toNat > 3 then .sins
      else σ.instruction.stat := by
  have access := memoryAccess_stat σ.memory σ.executed.M
  have executed := execute_stat σ.operands σ.CC
  exact access.trans (by rw [show σ.executed.M.stat = _ from executed]; rfl)

/-- The status that the stages compute is the status of the sequential machine. -/
theorem accessed_stat_eq_status {σ : SeqState} (bytes : σ.FirstByteOutside ∨ σ.BytesInside) :
    σ.accessed.stat = σ.status := by
  rw [accessed_stat]
  rcases bytes with outside | inside
  · have code : σ.executed.M.icode = .nop := by
      rw [executed_icode, outside.instruction_eq]
    have accepted : σ.dataRejected = false :=
      dataRejected_eq_false (by simp only [memRead, code]) (by simp only [memWrite, code])
    rw [accepted, outside.instruction_eq, status, if_pos outside]
    rfl
  · have range : ¬ σ.FirstByteOutside := by
      have long := instructionLength_pos σ.instruction.icode
      have lower := inside.1
      have upper := inside.2
      exact not_not.mpr ⟨lower, by omega⟩
    have accepted (noRead : memRead σ.executed.M = false)
        (noWrite : memWrite σ.executed.M = false) := dataRejected_eq_false noRead noWrite
    rw [inside.instruction_stat, status, if_neg range]
    simp only [memRead, memWrite, executed_icode] at accepted
    cases code : σ.instruction.icode <;> simp_all [instructionValid]

/-- The instruction that the machine stops at leaves memory alone: a store among
them is one that is rejected. -/
theorem Stops.accessed_memory {σ : SeqState} (stops : σ.Stops) :
    σ.accessed.memory = σ.memory := by
  rw [SeqState.accessed_memory]
  split
  · case isTrue write =>
      refine putWord_error (Bool.not_eq_false _ ▸ fun accepted => stops ?_)
      have notOutside : ¬ σ.FirstByteOutside := by
        intro outside
        rw [memWrite, executed_icode, outside.instruction_eq] at write
        exact Bool.false_ne_true write
      have noRead : memRead σ.executed.M = false := by
        unfold memWrite at write
        unfold memRead
        cases code : σ.executed.M.icode <;> simp_all
      have accesses : σ.dataRejected = false := by
        simp only [dataRejected, noRead, write, accepted, Bool.false_and, Bool.and_false,
          Bool.or_self]
      rw [status, if_neg notOutside, accesses]
      rw [memWrite, executed_icode] at write
      cases code : σ.instruction.icode <;> simp_all [instructionValid]
  · rfl

/-! ## The address of the next instruction -/

/-- The branch is predicted to be taken and is not. -/
def Mispredicted (σ : SeqState) : Prop :=
  σ.instruction.icode = .jxx ∧ σ.executed.M.Cnd = 0

instance (σ : SeqState) : Decidable σ.Mispredicted := inferInstanceAs (Decidable (_ ∧ _))

theorem Mispredicted.nextPC {σ : SeqState} (mispredicted : σ.Mispredicted) :
    σ.nextPC = σ.executed.M.valA := by
  obtain ⟨code, notTaken⟩ := mispredicted
  have valA : σ.executed.M.valA = σ.instruction.valP := by
    change (if _ then _ else _) = _
    rw [if_pos (Or.inr code)]
  rw [valA, SeqState.nextPC, code, notTaken]
  simp

theorem nextPC_ret {σ : SeqState} (code : σ.instruction.icode = .ret) :
    σ.nextPC = σ.accessed.valM := by
  rw [SeqState.nextPC, code]
  simp

theorem nextPC_predicted {σ : SeqState} (right : ¬ σ.Mispredicted)
    (notRet : σ.instruction.icode ≠ .ret) :
    σ.nextPC =
      predictPC σ.instruction.icode σ.instruction.valC σ.instruction.valP := by
  unfold SeqState.nextPC predictPC
  by_cases jump : σ.instruction.icode = .jxx
  · have taken : σ.executed.M.Cnd = 1 := by
      have codes : σ.executed.M.Cnd = 0 ∨ σ.executed.M.Cnd = 1 := computeCnd_cases _ _
      exact codes.resolve_left fun zero => right ⟨jump, zero⟩
    simp [jump, taken]
  · simp [jump, notRet]

/-- The instruction of `σ` loads a register that the instruction of `τ` reads. -/
def LoadUse (σ τ : SeqState) : Prop :=
  (σ.instruction.icode = .mrmovl ∨ σ.instruction.icode = .popl) ∧
    (getDstM σ.instruction = getSrcA τ.instruction ∨
      getDstM σ.instruction = getSrcB τ.instruction)

instance (σ τ : SeqState) : Decidable (σ.LoadUse τ) := inferInstanceAs (Decidable (_ ∧ _))

end SeqState

end Yess
