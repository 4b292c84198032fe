import Yess.Forwarding
import Yess.Pipeline.WellBehaved

/-!
# Registers and forwarding

The eight registers of the pipeline lag behind the ones of the sequential
machine.  Forwarding makes up for the difference: for a proper register id, an
operand read in decode is the value the register will have once the instructions
in W, M and E have written it, but for a load that is still in E.
-/

namespace Yess

open Lib.Writes

/-- The eight cells of `registers[]` hold the given register file. -/
def Agree (cells : Registers) (file : RegisterFile) : Prop :=
  ∀ place : Fin 8, cells (place.val : Int) = file place

theorem place_ne_rNone (place : Fin 8) : (place.val : Int) ≠ rNone := by
  have bound := place.isLt
  simp only [rNone]
  omega

@[simp] theorem RegisterFile.write_rNone (file : RegisterFile) (data : Word) :
    file.write rNone data = file := by
  funext place
  exact if_neg (place_ne_rNone place)

/-- A write to both register files keeps them in agreement, whatever the id. -/
theorem Agree.write {cells : Registers} {file : RegisterFile} (agree : Agree cells file)
    (reg : Rregister) (data : Word) :
    Agree (Function.update cells reg data) (file.write reg data) := by
  intro place
  unfold RegisterFile.write
  by_cases same : (place.val : Int) = reg
  · rw [if_pos same, same, Function.update_self]
  · rw [if_neg same, Function.update_of_ne same]
    exact agree place

theorem Agree.write_rNone {cells : Registers} {file : RegisterFile} (agree : Agree cells file)
    (data : Word) : Agree (Function.update cells rNone data) file := by
  simpa using agree.write rNone data

theorem Agree.read {cells : Registers} {file : RegisterFile} (agree : Agree cells file)
    {reg : Rregister} (inside : IsRegister reg) : cells reg = file.read reg := by
  unfold RegisterFile.read
  rw [dif_pos inside]
  have place := agree ⟨reg.toNat, (Int.toNat_lt inside.1).mpr inside.2⟩
  rwa [Int.toNat_of_nonneg inside.1] at place

@[simp] theorem RegisterFile.read_rNone (file : RegisterFile) : file.read rNone = 0 :=
  dif_neg not_isRegister_rNone

theorem RegisterFile.read_write_of_ne (file : RegisterFile) {reg other : Rregister} (data : Word)
    (different : reg ≠ other) : (file.write other data).read reg = file.read reg := by
  unfold RegisterFile.read
  by_cases inside : IsRegister reg
  · rw [dif_pos inside, dif_pos inside]
    apply if_neg
    rw [Int.toNat_of_nonneg inside.1]
    exact different
  · rw [dif_neg inside, dif_neg inside]

namespace State

/-- The registers as the instructions in W, M and E leave them, but for a load in E. -/
def ahead (s : State) : Registers :=
  Function.update
    (Function.update (Function.update s.written s.M.dstE s.M.valE) s.M.dstM s.access.valM)
    s.execution.M.dstE s.execution.M.valE

/-- A forwarded operand is the register as the instructions ahead leave it. -/
theorem forwardB_eq_ahead (s : State) {src : Rregister} (inside : IsRegister src) :
    forwardB s.written src s.forwarded = s.ahead src := by
  have written : s.written = applyWrites s.registers s.W.writes := rfl
  have ahead : s.ahead = applyWrites s.registers s.forwarded.writes := rfl
  rw [forwardB_eq_lastWrite _ (ne_rNone_of_isRegister inside), getRegister_of_isRegister inside,
    written, ahead]
  exact lastWrite_getD_applyWrites s.registers s.W.writes _ src

/-- A proper operand is read from the registers that the instructions ahead leave. -/
theorem forwardB_of_agree (s : State) {src : Rregister} {file : RegisterFile}
    (agree : Agree s.ahead file) (proper : ProperId src) :
    forwardB s.written src s.forwarded = file.read src := by
  rcases proper with inside | rfl
  · rw [s.forwardB_eq_ahead inside, agree.read inside]
  · rw [RegisterFile.read_rNone]
    rfl

end State

end Yess
