import Yess.MainLoop

/-!
# One clock cycle, register by register

The five stages of a cycle hand values to each other through `forward`.  The
lemmas below spell that out once: they give each part of the machine after a
cycle as a function of the pipeline registers before it, for a cycle in which
`writebackStage` does not stop the program, and say what is left for the cycle
in which it does.
-/

namespace Yess

namespace State

def access (s : State) : MemoryAccess := memoryAccess s.memory s.M

def execution (s : State) : Execution := execute s.E (!s.access.stat.exceptional) s.CC

def written (s : State) : Registers :=
  Function.update (Function.update s.registers s.W.dstE s.W.valE) s.W.dstM s.W.valM

/-- The forward structure that decode and fetch read in a cycle that is not stopped. -/
def forwarded (s : State) : ForwardType where
  D_icode := s.D.icode
  d_srcA := getSrcA s.D
  d_srcB := getSrcB s.D
  E_icode := s.E.icode
  E_dstM := s.E.dstM
  e_Cnd := s.execution.M.Cnd
  e_dstE := s.execution.M.dstE
  e_valE := s.execution.M.valE
  M_icode := s.M.icode
  M_Cnd := s.M.Cnd
  M_dstE := s.M.dstE
  M_valE := s.M.valE
  M_dstM := s.M.dstM
  M_valA := s.M.valA
  m_stat := s.access.stat
  m_valM := s.access.valM
  W_stat := .saok
  W_icode := s.W.icode
  W_dstE := s.W.dstE
  W_valE := s.W.valE
  W_dstM := s.W.dstM
  W_valM := s.W.valM

def decoded (s : State) : Eregister where
  stat := s.D.stat
  icode := s.D.icode
  ifun := s.D.ifun
  valC := s.D.valC
  valA := selectFwdA s.written s.D (getSrcA s.D) s.forwarded
  valB := forwardB s.written (getSrcB s.D) s.forwarded
  dstE := getDstE s.D
  dstM := getDstM s.D
  srcA := getSrcA s.D
  srcB := getSrcB s.D

end State

theorem bubbleM_eq (fwd : ForwardType) :
    bubbleM fwd = (fwd.m_stat.exceptional || fwd.W_stat.exceptional) := rfl

theorem exceptionAhead_eq (fwd : ForwardType) :
    exceptionAhead fwd = (fwd.m_stat.exceptional || fwd.W_stat.exceptional) := by
  simp only [exceptionAhead, Stat.exceptional]
  cases fwd.m_stat <;> cases fwd.W_stat <;> decide

theorem stallW_eq (fwd : ForwardType) : stallW fwd = fwd.W_stat.exceptional := rfl

/-- A cycle that is not stopped, written out. -/
theorem cycle_running {s : State} (running : s.W.stat = .saok) :
    cycle s =
      { memory := s.access.memory
        registers := s.written
        CC := s.execution.CC
        F := ⟨if stallF s.forwarded then selectPC s.forwarded s.F
          else
            let fetched := fetchInstruction s.access.memory (selectPC s.forwarded s.F)
            predictPC fetched.icode fetched.valC fetched.valP⟩
        D := if bubbleD s.forwarded then clearDregister
          else if !stallD s.forwarded then
            fetchInstruction s.access.memory (selectPC s.forwarded s.F)
          else s.D
        E := if bubbleE s.forwarded then clearEregister else s.decoded
        M := if s.access.stat.exceptional then clearMregister else s.execution.M
        W := ⟨s.access.stat, s.M.icode, s.M.valE, s.access.valM, s.M.dstE, s.M.dstM⟩
        forward := s.forwarded } := by
  have noStall : Stat.saok.exceptional = false := rfl
  unfold cycle beforeDecode
  rw [writebackStage_of_eq running]
  simp only [memoryStage, executeStage, decodeStage, fetchStage, bubbleM_eq, exceptionAhead_eq,
    stallW_eq, noStall, Bool.or_false, Bool.or_self, Bool.false_eq_true, if_false]
  rfl

/-- The machine after the decode call of a cycle: what fetch reads. -/
def beforeFetch (s : State) : State := decodeStage (beforeDecode s)

theorem beforeFetch_forward {s : State} (running : s.W.stat = .saok) :
    (beforeFetch s).forward = s.forwarded := by
  change (cycle s).forward = _
  rw [cycle_running running]

end Yess
