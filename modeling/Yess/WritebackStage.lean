import Yess.Processor

/-!
# Writeback stage

`writebackStage.c`: the stage that ends the program on an exceptional status and
writes up to two results to the register file.
-/

namespace Yess

/-- What a call of `writebackStage` leaves: the machine, the return value and `*dump`. -/
structure Writeback where
  state : State
  stop : Int
  dump : Bool

/-- On an exceptional status the stage returns `-1` at once: neither the register
file nor the W fields of the forward structure are written. -/
def writebackStage (s : State) : Writeback :=
  if s.W.stat = .sins then ⟨s, -1, true⟩
  else if s.W.stat = .sadr then ⟨s, -1, true⟩
  else if s.W.stat = .shlt then ⟨s, -1, false⟩
  else
    let dump := s.W.icode = .dump ∧
      (getBits 0 0 s.W.valE ≠ 0 ∨ getBits 1 1 s.W.valE ≠ 0 ∨ getBits 2 2 s.W.valE ≠ 0)
    { state :=
        { s with
          registers := setRegister (setRegister s.registers s.W.dstE s.W.valE) s.W.dstM s.W.valM
          forward :=
            { s.forward with
              W_stat := s.W.stat
              W_icode := s.W.icode
              W_dstE := s.W.dstE
              W_valE := s.W.valE
              W_dstM := s.W.dstM
              W_valM := s.W.valM } }
      stop := 1
      dump := dump }

/-- The subscripts of `registers[]` that a call of `writebackStage` evaluates, in order. -/
def writebackIndices (s : State) : List Int :=
  if s.W.stat = .saok then
    (setRegisterIndex s.W.dstE).toList ++ (setRegisterIndex s.W.dstM).toList
  else []

theorem writebackStage_stop (s : State) :
    (writebackStage s).stop = if s.W.stat = .saok then 1 else -1 := by
  unfold writebackStage
  cases s.W.stat <;> rfl

/-- On an exceptional status the machine is left as it is. -/
theorem writebackStage_of_ne {s : State} (stopping : s.W.stat ≠ .saok) :
    (writebackStage s).state = s := by
  unfold writebackStage
  cases stat : s.W.stat <;> simp_all

theorem writebackStage_of_eq {s : State} (running : s.W.stat = .saok) :
    (writebackStage s).state =
      { s with
        registers := Function.update (Function.update s.registers s.W.dstE s.W.valE) s.W.dstM
          s.W.valM
        forward :=
          { s.forward with
            W_stat := .saok
            W_icode := s.W.icode
            W_dstE := s.W.dstE
            W_valE := s.W.valE
            W_dstM := s.W.dstM
            W_valM := s.W.valM } } := by
  simp [writebackStage, running]

/-- Nothing but the registers and the forward structure is written. -/
theorem writebackStage_frame (s : State) :
    ∃ registers forward, (writebackStage s).state =
      { s with registers := registers, forward := forward } := by
  by_cases running : s.W.stat = .saok
  · exact ⟨_, _, writebackStage_of_eq running⟩
  · exact ⟨s.registers, s.forward, writebackStage_of_ne running⟩

end Yess
