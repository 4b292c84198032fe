import Yess.MainLoop

/-!
# The sequential machine

One Y86 instruction at a time, with no pipeline: fetch the whole instruction at
the PC, read its sources, compute, access memory, write back, set the PC.  This
machine says what a program means; the functions it applies to one instruction
are the ones of the source.
-/

namespace Yess

open Lib.ByteStore Lib.Iteration

/-- The eight program registers of the sequential machine. -/
abbrev RegisterFile := Fin 8 → Word

namespace RegisterFile

/-- The value of a source register; an id that names no register reads as zero. -/
def read (registers : RegisterFile) (reg : Rregister) : Word :=
  if inside : IsRegister reg then registers ⟨reg.toNat, by
    obtain ⟨lower, upper⟩ := inside
    exact (Int.toNat_lt lower).mpr upper⟩
  else 0

/-- The registers after a write; an id that names no register changes nothing. -/
def write (registers : RegisterFile) (reg : Rregister) (data : Word) : RegisterFile :=
  fun place => if (place.val : Int) = reg then data else registers place

end RegisterFile

/-- The state of the sequential machine between two instructions. -/
structure SeqState where
  pc : Word
  registers : RegisterFile
  CC : Word
  memory : Memory

namespace SeqState

/-- All registers, the condition codes and the PC are zero. -/
def start (memory : Memory) : SeqState := ⟨0, fun _ => 0, 0, memory⟩

def instruction (σ : SeqState) : Dregister := fetchInstruction σ.memory σ.pc

def operands (σ : SeqState) : Eregister :=
  let D := σ.instruction
  { stat := D.stat
    icode := D.icode
    ifun := D.ifun
    valC := D.valC
    valA := if D.icode = .call ∨ D.icode = .jxx then D.valP else σ.registers.read (getSrcA D)
    valB := σ.registers.read (getSrcB D)
    dstE := getDstE D
    dstM := getDstM D
    srcA := getSrcA D
    srcB := getSrcB D }

/-- `valE`, `Cnd` and the condition codes after the instruction. -/
def executed (σ : SeqState) : Execution := execute σ.operands true σ.CC

def accessed (σ : SeqState) : MemoryAccess := memoryAccess σ.memory σ.executed.M

def FirstByteOutside (σ : SeqState) : Prop := ¬ InRange 65536 σ.pc.toInt

instance (σ : SeqState) : Decidable σ.FirstByteOutside := inferInstanceAs (Decidable (¬ _))

/-- The data access is one that `getWord` or `putWord` rejects. -/
def dataRejected (σ : SeqState) : Bool :=
  let M := σ.executed.M
  let address := (selectMemoryAddr M).toInt
  (memRead M && (getWord σ.memory address).2) ||
    (memWrite M && (putWord σ.memory address M.valA).2)

/-- How the instruction ends: `SAOK`, or the reason the machine stops before it. -/
def status (σ : SeqState) : Stat :=
  let D := σ.instruction
  if σ.FirstByteOutside then .sadr
  else if D.icode = .halt then .shlt
  else if !instructionValid D.icode then .sins
  else if D.icode = .opl ∧ D.ifun.toNat > 3 then .sins
  else if σ.dataRejected then .sadr
  else .saok

/-- The machine stops at this instruction, before any effect of it. -/
def Stops (σ : SeqState) : Prop := σ.status ≠ .saok

instance (σ : SeqState) : Decidable σ.Stops := inferInstanceAs (Decidable (_ ≠ _))

def nextPC (σ : SeqState) : Word :=
  let D := σ.instruction
  if D.icode = .call ∨ (D.icode = .jxx ∧ σ.executed.M.Cnd = 1) then D.valC
  else if D.icode = .ret then σ.accessed.valM
  else D.valP

/-- The state after the instruction: `dstE` is written, then `dstM`. -/
def next (σ : SeqState) : SeqState where
  pc := σ.nextPC
  registers :=
    (σ.registers.write σ.executed.M.dstE σ.executed.M.valE).write σ.executed.M.dstM
      σ.accessed.valM
  CC := σ.executed.CC
  memory := σ.accessed.memory

def result (σ : SeqState) : Wregister :=
  ⟨σ.status, σ.instruction.icode, σ.executed.M.valE, σ.accessed.valM, σ.executed.M.dstE,
    σ.executed.M.dstM⟩

end SeqState

/-- The state before instruction number `index`. -/
def seqAt (memory : Memory) (index : Nat) : SeqState :=
  SeqState.next^[index] (SeqState.start memory)

/-- The sequential machine gets to instruction number `index`: it executes the
instruction or stops at it. -/
abbrev Reaches (memory : Memory) (index : Nat) : Prop :=
  RunsFor SeqState.next SeqState.Stops (SeqState.start memory) index

abbrev SeqStopsAt (memory : Memory) (index : Nat) : Prop :=
  HaltsAt SeqState.next SeqState.Stops (SeqState.start memory) index

theorem seqAt_succ (memory : Memory) (index : Nat) :
    seqAt memory (index + 1) = (seqAt memory index).next :=
  Function.iterate_succ_apply' _ _ _

/-- An instruction before one that is reached is executed to its end. -/
theorem Reaches.not_stops {memory : Memory} {index earlier : Nat}
    (reached : Reaches memory index) (below : earlier < index) :
    ¬ (seqAt memory earlier).Stops := reached earlier below

end Yess
