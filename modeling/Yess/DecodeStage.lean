import Yess.Processor

/-!
# Decode stage

`decodeStage.c`: the operands of an instruction, taken from the register file or
forwarded from the instructions ahead of it, and the E register.
-/

namespace Yess

def getSrcA (dreg : Dregister) : Rregister :=
  match dreg.icode with
  | .rrmovl | .rmmovl | .opl | .pushl => dreg.rA
  | .popl | .ret => rEsp
  | _ => rNone

def getSrcB (dreg : Dregister) : Rregister :=
  match dreg.icode with
  | .opl | .rmmovl | .mrmovl => dreg.rB
  | .popl | .ret | .call | .pushl => rEsp
  | _ => rNone

def getDstE (dreg : Dregister) : Rregister :=
  match dreg.icode with
  | .opl | .rrmovl | .irmovl => dreg.rB
  | .popl | .ret | .call | .pushl => rEsp
  | _ => rNone

def getDstM (dreg : Dregister) : Rregister :=
  if dreg.icode = .mrmovl ∨ dreg.icode = .popl then dreg.rA else rNone

/-- The operand for a source register: the youngest forwarded value with that
destination, else the register file. -/
def forwardB (registers : Registers) (srcB : Rregister) (fwd : ForwardType) : Word :=
  if srcB = rNone then 0
  else if srcB = fwd.e_dstE then fwd.e_valE
  else if srcB = fwd.M_dstM then fwd.m_valM
  else if srcB = fwd.M_dstE then fwd.M_valE
  else if srcB = fwd.W_dstM then fwd.W_valM
  else if srcB = fwd.W_dstE then fwd.W_valE
  else getRegister registers srcB

/-- The operand `valA`, with `valP` merged in for `CALL` and `JXX`. -/
def selectFwdA (registers : Registers) (dreg : Dregister) (srcA : Rregister) (fwd : ForwardType) :
    Word :=
  if dreg.icode = .call ∨ dreg.icode = .jxx then dreg.valP
  else if srcA = rNone then 0
  else if srcA = fwd.e_dstE then fwd.e_valE
  else if srcA = fwd.M_dstM then fwd.m_valM
  else if srcA = fwd.M_dstE then fwd.M_valE
  else if srcA = fwd.W_dstM then fwd.W_valM
  else if srcA = fwd.W_dstE then fwd.W_valE
  else getRegister registers srcA

def loadUse (fwd : ForwardType) : Bool :=
  (fwd.E_icode = .mrmovl || fwd.E_icode = .popl) &&
    (fwd.E_dstM = fwd.d_srcA || fwd.E_dstM = fwd.d_srcB)

theorem loadUse_iff (fwd : ForwardType) :
    loadUse fwd = true ↔ (fwd.E_icode = .mrmovl ∨ fwd.E_icode = .popl) ∧
      (fwd.E_dstM = fwd.d_srcA ∨ fwd.E_dstM = fwd.d_srcB) := by
  simp [loadUse]

theorem loadUse_eq_false {fwd : ForwardType} (noLoad : fwd.E_icode ≠ .mrmovl)
    (noPop : fwd.E_icode ≠ .popl) : loadUse fwd = false := by
  unfold loadUse
  rw [decide_eq_false noLoad, decide_eq_false noPop]
  rfl

def bubbleE (fwd : ForwardType) : Bool :=
  (fwd.E_icode = .jxx && fwd.e_Cnd = 0) || loadUse fwd

def decodeStage (s : State) : State :=
  let srcA := getSrcA s.D
  let srcB := getSrcB s.D
  let dstE := getDstE s.D
  let dstM := getDstM s.D
  let valA := selectFwdA s.registers s.D srcA s.forward
  let valB := forwardB s.registers srcB s.forward
  let forward :=
    { s.forward with
      D_icode := s.D.icode
      d_srcA := srcA
      d_srcB := srcB }
  { s with
    forward := forward
    E := if bubbleE forward then clearEregister
      else ⟨s.D.stat, s.D.icode, s.D.ifun, s.D.valC, valA, valB, dstE, dstM, srcA, srcB⟩ }

def NotForwarded (src : Rregister) (fwd : ForwardType) : Prop :=
  src ≠ rNone ∧ src ≠ fwd.e_dstE ∧ src ≠ fwd.M_dstM ∧ src ≠ fwd.M_dstE ∧ src ≠ fwd.W_dstM ∧
    src ≠ fwd.W_dstE

instance (src : Rregister) (fwd : ForwardType) : Decidable (NotForwarded src fwd) :=
  inferInstanceAs (Decidable (_ ∧ _))

/-- The subscripts of `registers[]` that a call of `decodeStage` evaluates, in order. -/
def decodeIndices (s : State) : List Int :=
  (if ¬ (s.D.icode = .call ∨ s.D.icode = .jxx) ∧ NotForwarded (getSrcA s.D) s.forward then
    (getRegisterIndex (getSrcA s.D)).toList else []) ++
  (if NotForwarded (getSrcB s.D) s.forward then (getRegisterIndex (getSrcB s.D)).toList else [])

/-- Off the merged `valP`, both operands are selected the same way. -/
theorem selectFwdA_eq (registers : Registers) (dreg : Dregister) (srcA : Rregister)
    (fwd : ForwardType) :
    selectFwdA registers dreg srcA fwd =
      if dreg.icode = .call ∨ dreg.icode = .jxx then dreg.valP
      else forwardB registers srcA fwd := rfl

end Yess
