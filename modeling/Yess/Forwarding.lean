import Yess.Cycle
import Yess.Lib.Writes

/-!
# Forwarding

What decode hands to E.  The five destinations that `forward` offers are writes
that the instructions ahead still have to make; the operand of a register is what
it will hold once they are made in program order.
-/

namespace Yess

open Lib.Writes

def Wregister.writes (W : Wregister) : List (Rregister × Word) :=
  [(W.dstE, W.valE), (W.dstM, W.valM)]

/-- The writes that `forward` offers to decode, in program order. -/
def ForwardType.writes (fwd : ForwardType) : List (Rregister × Word) :=
  [(fwd.W_dstE, fwd.W_valE), (fwd.W_dstM, fwd.W_valM), (fwd.M_dstE, fwd.M_valE),
    (fwd.M_dstM, fwd.m_valM), (fwd.e_dstE, fwd.e_valE)]

/-- The last of the writes that `forward` offers is the first that `forwardB` finds. -/
theorem lastWrite_writes (fwd : ForwardType) (src : Rregister) :
    lastWrite src fwd.writes =
      if src = fwd.e_dstE then some fwd.e_valE
      else if src = fwd.M_dstM then some fwd.m_valM
      else if src = fwd.M_dstE then some fwd.M_valE
      else if src = fwd.W_dstM then some fwd.W_valM
      else if src = fwd.W_dstE then some fwd.W_valE
      else none := by
  change List.lookup src [(fwd.e_dstE, fwd.e_valE), (fwd.M_dstM, fwd.m_valM),
    (fwd.M_dstE, fwd.M_valE), (fwd.W_dstM, fwd.W_valM), (fwd.W_dstE, fwd.W_valE)] = _
  simp only [lookup_cons_eq_ite, List.lookup_nil]

/-- An operand is the last of the writes that `forward` offers, else it is read from
the register file. -/
theorem forwardB_eq_lastWrite (registers : Registers) {src : Rregister} (some : src ≠ rNone)
    (fwd : ForwardType) :
    forwardB registers src fwd = (lastWrite src fwd.writes).getD (getRegister registers src) := by
  rw [forwardB, if_neg some, lastWrite_writes]
  split_ifs <;> rfl

/-! ## The operands of a cycle -/

def operandA (s : State) : Word := selectFwdA s.registers s.D (getSrcA s.D) s.forward

def operandB (s : State) : Word := forwardB s.registers (getSrcB s.D) s.forward

@[simp] theorem beforeDecode_D (s : State) : (beforeDecode s).D = s.D := by
  obtain ⟨registers, forward, frame⟩ := writebackStage_frame s
  rw [beforeDecode, frame]
  rfl

theorem cycle_E_eq (s : State) :
    (cycle s).E =
      if bubbleE (beforeFetch s).forward then clearEregister
      else ⟨s.D.stat, s.D.icode, s.D.ifun, s.D.valC, operandA (beforeDecode s),
        operandB (beforeDecode s), getDstE s.D, getDstM s.D, getSrcA s.D, getSrcB s.D⟩ := by
  rw [← beforeDecode_D s]
  rfl

theorem beforeDecode_registers {s : State} (running : s.W.stat = .saok) :
    (beforeDecode s).registers = applyWrites s.registers s.W.writes := by
  unfold beforeDecode
  rw [writebackStage_of_eq running]
  rfl

/-! ## Program order -/

/-- The writes that the instructions ahead of the one in D still have to make when a
cycle starts, in program order: the ones of W, the ones of M with the value that
the memory stage reads, and the one of E with the value that the execute stage
computes, unless E is a conditional move whose condition does not hold. -/
def pendingWrites (s : State) : List (Rregister × Word) :=
  let forward := (beforeDecode s).forward
  s.W.writes ++ [(s.M.dstE, s.M.valE), (s.M.dstM, forward.m_valM)] ++
    if s.E.icode = .rrmovl ∧ forward.e_Cnd = 0 then [] else [(s.E.dstE, forward.e_valE)]

def programOrder (s : State) : Registers := applyWrites s.registers (pendingWrites s)

/-- The operands of a cycle are read from the registers in program order, and handed to
E unless it is bubbled. -/
structure OperandsInOrder (s : State) : Prop where
  valA : ¬ (s.D.icode = .call ∨ s.D.icode = .jxx) → IsRegister (getSrcA s.D) →
    operandA (beforeDecode s) = programOrder s (getSrcA s.D)
  valB : IsRegister (getSrcB s.D) → operandB (beforeDecode s) = programOrder s (getSrcB s.D)
  handed : bubbleE (beforeFetch s).forward = false →
    (cycle s).E.valA = operandA (beforeDecode s) ∧ (cycle s).E.valB = operandB (beforeDecode s)

/-- In a cycle that is not stopped, `forward` offers the writes of W, M and E; a
conditional move whose condition does not hold writes to `RNONE`. -/
theorem beforeDecode_writes {s : State} (running : s.W.stat = .saok) :
    (beforeDecode s).forward.writes =
      s.W.writes ++ [(s.M.dstE, s.M.valE), (s.M.dstM, (beforeDecode s).forward.m_valM)] ++
        [(if s.E.icode = .rrmovl ∧ (beforeDecode s).forward.e_Cnd = 0 then rNone else s.E.dstE,
          (beforeDecode s).forward.e_valE)] := by
  unfold beforeDecode
  rw [writebackStage_of_eq running]
  rfl

theorem lastWrite_pendingWrites {s : State} (running : s.W.stat = .saok) {src : Rregister}
    (inside : IsRegister src) :
    lastWrite src (beforeDecode s).forward.writes = lastWrite src (pendingWrites s) := by
  rw [beforeDecode_writes running, pendingWrites, lastWrite_concat]
  by_cases dropped : s.E.icode = .rrmovl ∧ (beforeDecode s).forward.e_Cnd = 0
  · rw [if_pos dropped, if_pos dropped, if_neg (ne_rNone_of_isRegister inside),
      List.append_nil]
  · rw [if_neg dropped, if_neg dropped, lastWrite_concat]

theorem forwardB_eq_programOrder {s : State} (running : s.W.stat = .saok) {src : Rregister}
    (inside : IsRegister src) :
    forwardB (beforeDecode s).registers src (beforeDecode s).forward = programOrder s src := by
  rw [forwardB_eq_lastWrite _ (ne_rNone_of_isRegister inside), getRegister_of_isRegister inside,
    lastWrite_pendingWrites running inside, beforeDecode_registers running, programOrder,
    pendingWrites, List.append_assoc]
  exact lastWrite_getD_applyWrites s.registers s.W.writes _ src

/-- For every register file and every contents of D, E, M and W, when write-back does
not stop the program: each operand that is a register is read from the registers in
program order.  What a load in E will read is not among the pending writes; if
decode needs it, the load/use clause bubbles E. -/
theorem operands_inOrder (s : State) (running : s.W.stat = .saok) : OperandsInOrder s := by
  constructor
  · intro merged inside
    rw [operandA, beforeDecode_D, selectFwdA_eq, if_neg merged]
    exact forwardB_eq_programOrder running inside
  · intro inside
    rw [operandB, beforeDecode_D]
    exact forwardB_eq_programOrder running inside
  · intro handed
    rw [cycle_E_eq, if_neg (Bool.eq_false_iff.mp handed)]
    exact ⟨rfl, rfl⟩

/-- A `popl %esp` in M, a conditional move to `%esp` in E whose condition does not hold,
and a `pushl %esp` in D. -/
def poplEspAhead : State :=
  { setupyess .zero (fun place => if place.val = 0 then 0x2A else 0) with
    D := ⟨.saok, .pushl, fNone, rEsp, rNone, 0, 0⟩
    E := ⟨.saok, .rrmovl, cmove, 0, 0x99, 0, rEsp, rNone, 0, rNone⟩
    M := ⟨.saok, .popl, 0, 4, 0, rEsp, rEsp⟩
    W := ⟨.saok, .irmovl, 1, 0, rEsp, rNone⟩ }

/-- The operands of that `pushl` are the word that is popped. -/
theorem operands_inOrder_poplEspAhead :
    OperandsInOrder poplEspAhead ∧ programOrder poplEspAhead rEsp = 0x2A :=
  ⟨operands_inOrder poplEspAhead rfl, by decide +kernel⟩

end Yess
