import Yess.Pipeline.Operands

/-!
# The instructions of the sequential machine

What each instruction does to the PC, the registers, the condition codes and
memory, and when it is executed at all: one lemma for each instruction code.
-/

namespace Yess.SeqState

variable {σ : SeqState}

def Taken (σ : SeqState) : Prop :=
  condition σ.instruction.ifun (getCC sf σ.CC) (getCC zf σ.CC) (getCC of σ.CC) = 1

instance (σ : SeqState) : Decidable σ.Taken := inferInstanceAs (Decidable (_ = _))

abbrev reg (σ : SeqState) (id : Rregister) : Word := σ.registers.read id

/-! ## Parts of an execution -/

@[simp] theorem executed_dstE (σ : SeqState) :
    σ.executed.M.dstE =
      if σ.instruction.icode = .rrmovl ∧ σ.executed.M.Cnd = 0 then rNone
      else getDstE σ.instruction := rfl

@[simp] theorem executed_dstM (σ : SeqState) : σ.executed.M.dstM = getDstM σ.instruction := rfl

@[simp] theorem executed_valE (σ : SeqState) :
    σ.executed.M.valE = (funcPtr σ.instruction.icode σ.operands true σ.CC).valE := rfl

@[simp] theorem executed_valA (σ : SeqState) : σ.executed.M.valA = σ.operands.valA := rfl

@[simp] theorem executed_CC (σ : SeqState) :
    σ.executed.CC =
      if σ.instruction.icode = .opl then (performOpl σ.operands true σ.CC).CC else σ.CC :=
  execute_CC _ _ _

theorem executed_Cnd (branch : σ.instruction.icode = .rrmovl ∨ σ.instruction.icode = .jxx) :
    σ.executed.M.Cnd = if σ.Taken then 1 else 0 := by
  have cases := condition_cases σ.instruction.ifun (getCC sf σ.CC) (getCC zf σ.CC) (getCC of σ.CC)
  have computed : σ.executed.M.Cnd =
      condition σ.instruction.ifun (getCC sf σ.CC) (getCC zf σ.CC) (getCC of σ.CC) := by
    change computeCnd (funcPtr σ.instruction.icode σ.operands true σ.CC).E
      (funcPtr σ.instruction.icode σ.operands true σ.CC).CC = _
    rcases branch with code | code
    · rw [code]
      exact if_pos (Or.inl code)
    · rw [code]
      exact if_pos (Or.inr code)
  rw [computed]
  by_cases taken : σ.Taken
  · rw [if_pos taken]
    exact taken
  · rw [if_neg taken]
    exact cases.resolve_right taken

/-! ## The address of a data access -/

theorem address_rmmovl (code : σ.instruction.icode = .rmmovl) :
    selectMemoryAddr σ.executed.M = σ.reg σ.instruction.rB + σ.instruction.valC := by
  simp [selectMemoryAddr, executed_icode, funcPtr, performRmmovl, operands, getSrcB, code]

theorem address_mrmovl (code : σ.instruction.icode = .mrmovl) :
    selectMemoryAddr σ.executed.M = σ.reg σ.instruction.rB + σ.instruction.valC := by
  simp [selectMemoryAddr, executed_icode, funcPtr, performMrmovl, operands, getSrcB, code]

theorem address_call (code : σ.instruction.icode = .call) :
    selectMemoryAddr σ.executed.M = σ.reg rEsp - 4 := by
  simp [selectMemoryAddr, executed_icode, funcPtr, performCall, operands, getSrcB, code]

theorem address_pushl (code : σ.instruction.icode = .pushl) :
    selectMemoryAddr σ.executed.M = σ.reg rEsp - 4 := by
  simp [selectMemoryAddr, executed_icode, funcPtr, performPushl, operands, getSrcB, code]

theorem address_pop (code : σ.instruction.icode = .ret ∨ σ.instruction.icode = .popl) :
    selectMemoryAddr σ.executed.M = σ.reg rEsp := by
  rcases code with code | code
  · simp [selectMemoryAddr, executed_icode, operands, getSrcA, code]
  · simp [selectMemoryAddr, executed_icode, operands, getSrcA, code]

/-! ## One lemma for each instruction -/

theorem next_nop (code : σ.instruction.icode = .nop) :
    σ.next = { σ with pc := σ.instruction.valP } := by
  simp [next, nextPC, accessed, memoryAccess, memRead, memWrite, executed_icode, getDstE, getDstM,
    code]

theorem next_rrmovl (code : σ.instruction.icode = .rrmovl) :
    σ.next =
      { σ with
        pc := σ.instruction.valP
        registers :=
          if σ.Taken then σ.registers.write σ.instruction.rB (σ.reg σ.instruction.rA)
          else σ.registers } := by
  have valA : σ.operands.valA = σ.reg σ.instruction.rA := by simp [operands, getSrcA, code]
  have Cnd := executed_Cnd (Or.inl code)
  by_cases taken : σ.Taken
  · simp [next, nextPC, accessed, memoryAccess, memRead, memWrite, executed_icode, getDstE,
      getDstM, code, Cnd, taken, funcPtr, performRrmovl, valA]
  · simp [next, nextPC, accessed, memoryAccess, memRead, memWrite, executed_icode, getDstM, code,
      Cnd, taken]

theorem next_irmovl (code : σ.instruction.icode = .irmovl) :
    σ.next =
      { σ with
        pc := σ.instruction.valP
        registers := σ.registers.write σ.instruction.rB σ.instruction.valC } := by
  simp [next, nextPC, accessed, memoryAccess, memRead, memWrite, executed_icode, getDstE, getDstM,
    code, funcPtr, performIrmovl, operands]

theorem next_rmmovl (code : σ.instruction.icode = .rmmovl) :
    σ.next =
      { σ with
        pc := σ.instruction.valP
        memory := (putWord σ.memory (σ.reg σ.instruction.rB + σ.instruction.valC).toInt
          (σ.reg σ.instruction.rA)).1 } := by
  simp [next, nextPC, accessed, memoryAccess, memRead, memWrite, executed_icode, getDstE, getDstM,
    getSrcA, operands, code, address_rmmovl code]

theorem next_mrmovl (code : σ.instruction.icode = .mrmovl) :
    σ.next =
      { σ with
        pc := σ.instruction.valP
        registers := σ.registers.write σ.instruction.rA
          (getWord σ.memory (σ.reg σ.instruction.rB + σ.instruction.valC).toInt).1 } := by
  simp [next, nextPC, accessed, memoryAccess, memRead, memWrite, executed_icode, getDstE, getDstM,
    code, address_mrmovl code]

theorem next_opl (code : σ.instruction.icode = .opl) :
    σ.next =
      { σ with
        pc := σ.instruction.valP
        registers := σ.registers.write σ.instruction.rB (performOpl σ.operands true σ.CC).valE
        CC := (performOpl σ.operands true σ.CC).CC } := by
  simp [next, nextPC, accessed, memoryAccess, memRead, memWrite, executed_icode, getDstE, getDstM,
    code, funcPtr]

theorem next_jxx (code : σ.instruction.icode = .jxx) :
    σ.next =
      { σ with pc := if σ.Taken then σ.instruction.valC else σ.instruction.valP } := by
  have Cnd := executed_Cnd (Or.inr code)
  by_cases taken : σ.Taken
  · simp [next, nextPC, accessed, memoryAccess, memRead, memWrite, executed_icode, getDstE,
      getDstM, code, Cnd, taken]
  · simp [next, nextPC, accessed, memoryAccess, memRead, memWrite, executed_icode, getDstE,
      getDstM, code, Cnd, taken]

theorem next_call (code : σ.instruction.icode = .call) :
    σ.next =
      { σ with
        pc := σ.instruction.valC
        registers := σ.registers.write rEsp (σ.reg rEsp - 4)
        memory := (putWord σ.memory (σ.reg rEsp - 4).toInt σ.instruction.valP).1 } := by
  simp [next, nextPC, accessed, memoryAccess, memRead, memWrite, executed_icode, getDstE, getDstM,
    getSrcB, operands, code, funcPtr, performCall, address_call code]

theorem next_ret (code : σ.instruction.icode = .ret) :
    σ.next =
      { σ with
        pc := (getWord σ.memory (σ.reg rEsp).toInt).1
        registers := σ.registers.write rEsp (σ.reg rEsp + 4) } := by
  simp [next, nextPC, accessed, memoryAccess, memRead, memWrite, executed_icode, getDstE, getDstM,
    getSrcB, operands, code, funcPtr, performRet, address_pop (Or.inl code)]

theorem next_pushl (code : σ.instruction.icode = .pushl) :
    σ.next =
      { σ with
        pc := σ.instruction.valP
        registers := σ.registers.write rEsp (σ.reg rEsp - 4)
        memory := (putWord σ.memory (σ.reg rEsp - 4).toInt (σ.reg σ.instruction.rA)).1 } := by
  simp [next, nextPC, accessed, memoryAccess, memRead, memWrite, executed_icode, getDstE, getDstM,
    getSrcA, getSrcB, operands, code, funcPtr, performPushl, address_pushl code]

theorem next_popl (code : σ.instruction.icode = .popl) :
    σ.next =
      { σ with
        pc := σ.instruction.valP
        registers := (σ.registers.write rEsp (σ.reg rEsp + 4)).write σ.instruction.rA
          (getWord σ.memory (σ.reg rEsp).toInt).1 } := by
  simp [next, nextPC, accessed, memoryAccess, memRead, memWrite, executed_icode, getDstE, getDstM,
    getSrcB, operands, code, funcPtr, performPopl, address_pop (Or.inr code)]

/-! ## When an instruction is executed -/

/-- An instruction inside memory that is one and no `halt` stops the machine for an
undefined operation or for its data access only. -/
theorem stops_iff (inside : ¬ σ.FirstByteOutside)
    (valid : instructionValid σ.instruction.icode = true) (noHalt : σ.instruction.icode ≠ .halt) :
    σ.Stops ↔ (σ.instruction.icode = .opl ∧ σ.instruction.ifun.toNat > 3) ∨
      σ.dataRejected = true := by
  unfold Stops status
  dsimp only
  rw [if_neg inside, if_neg noHalt, valid, Bool.not_true, if_neg Bool.false_ne_true]
  by_cases undefined : σ.instruction.icode = .opl ∧ σ.instruction.ifun.toNat > 3
  · rw [if_pos undefined]
    exact iff_of_true nofun (Or.inl undefined)
  · rw [if_neg undefined, or_iff_right undefined]
    cases σ.dataRejected <;> decide

theorem of_status_shlt (halts : σ.status = .shlt) :
    ¬ σ.FirstByteOutside ∧ σ.instruction.icode = .halt := by
  unfold status at halts
  dsimp only at halts
  split at halts
  · exact nomatch halts
  · case isFalse inside =>
      refine ⟨inside, ?_⟩
      by_contra noHalt
      rw [if_neg noHalt] at halts
      split_ifs at halts

theorem of_not_stops (running : ¬ σ.Stops) :
    ¬ σ.FirstByteOutside ∧ instructionValid σ.instruction.icode = true ∧
      σ.instruction.icode ≠ .halt := by
  have status : σ.status = .saok := not_not.mp running
  unfold SeqState.status at status
  dsimp only at status
  split at status
  · exact nomatch status
  · case isFalse inside =>
      split at status
      · exact nomatch status
      · case isFalse noHalt =>
          split at status
          · exact nomatch status
          · case isFalse valid =>
              refine ⟨inside, ?_, noHalt⟩
              rwa [Bool.not_eq_true', Bool.not_eq_false] at valid

theorem dataRejected_rmmovl (code : σ.instruction.icode = .rmmovl) :
    σ.dataRejected = (putWord σ.memory (σ.reg σ.instruction.rB + σ.instruction.valC).toInt
      (σ.reg σ.instruction.rA)).2 := by
  simp [dataRejected, memRead, memWrite, executed_icode, operands, getSrcA, code,
    address_rmmovl code]

theorem dataRejected_mrmovl (code : σ.instruction.icode = .mrmovl) :
    σ.dataRejected =
      (getWord σ.memory (σ.reg σ.instruction.rB + σ.instruction.valC).toInt).2 := by
  simp [dataRejected, memRead, memWrite, executed_icode, code, address_mrmovl code]

theorem dataRejected_call (code : σ.instruction.icode = .call) :
    σ.dataRejected = (putWord σ.memory (σ.reg rEsp - 4).toInt σ.instruction.valP).2 := by
  simp [dataRejected, memRead, memWrite, executed_icode, operands, code, address_call code]

theorem dataRejected_ret (code : σ.instruction.icode = .ret) :
    σ.dataRejected = (getWord σ.memory (σ.reg rEsp).toInt).2 := by
  simp [dataRejected, memRead, memWrite, executed_icode, code, address_pop (Or.inl code)]

theorem dataRejected_pushl (code : σ.instruction.icode = .pushl) :
    σ.dataRejected =
      (putWord σ.memory (σ.reg rEsp - 4).toInt (σ.reg σ.instruction.rA)).2 := by
  simp [dataRejected, memRead, memWrite, executed_icode, operands, getSrcA, code,
    address_pushl code]

theorem dataRejected_popl (code : σ.instruction.icode = .popl) :
    σ.dataRejected = (getWord σ.memory (σ.reg rEsp).toInt).2 := by
  simp [dataRejected, memRead, memWrite, executed_icode, code, address_pop (Or.inr code)]

end Yess.SeqState
