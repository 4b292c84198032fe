import Yess.Processor

/-!
# Memory stage

`memoryStage.c`: the one data access of an instruction, and the W register.
-/

namespace Yess

def selectMemoryAddr (mreg : Mregister) : Word :=
  match mreg.icode with
  | .rmmovl | .pushl | .call | .mrmovl => mreg.valE
  | .popl | .ret => mreg.valA
  | _ => noAddress

def memRead (mreg : Mregister) : Bool :=
  match mreg.icode with
  | .mrmovl | .popl | .ret => true
  | _ => false

def memWrite (mreg : Mregister) : Bool :=
  match mreg.icode with
  | .rmmovl | .pushl | .call => true
  | _ => false

def stallW (fwd : ForwardType) : Bool :=
  fwd.W_stat = .sadr || fwd.W_stat = .sins || fwd.W_stat = .shlt

/-- What the data access of an instruction gives: `valM`, the status, and memory. -/
structure MemoryAccess where
  valM : Word
  stat : Stat
  memory : Memory

/-- The data access of the instruction in `mreg`.  An instruction reads or writes
or does neither, and an access that fails turns the status into `SADR`.  The
address is an `unsigned int` passed as an `int`. -/
def memoryAccess (memory : Memory) (mreg : Mregister) : MemoryAccess :=
  let memaddress := (selectMemoryAddr mreg).toInt
  let read := if memRead mreg then getWord memory memaddress else (0, false)
  let write := if memWrite mreg then putWord memory memaddress mreg.valA else (memory, read.2)
  { valM := read.1
    stat := if write.2 then .sadr else mreg.stat
    memory := write.1 }

/-- A data access that fails turns the status into `SADR`; an instruction reads or
writes or does neither. -/
theorem memoryAccess_stat (memory : Memory) (mreg : Mregister) :
    (memoryAccess memory mreg).stat =
      if (memRead mreg && (getWord memory (selectMemoryAddr mreg).toInt).2) ||
        (memWrite mreg && (putWord memory (selectMemoryAddr mreg).toInt mreg.valA).2) then .sadr
      else mreg.stat := by
  unfold memoryAccess memRead memWrite
  cases mreg.icode <;> simp

@[simp] theorem memoryAccess_clear (memory : Memory) :
    memoryAccess memory clearMregister = ⟨0, .saok, memory⟩ := rfl

def memoryStage (s : State) : State :=
  let access := memoryAccess s.memory s.M
  let forward :=
    { s.forward with
      m_stat := access.stat
      M_icode := s.M.icode
      M_Cnd := s.M.Cnd
      M_dstM := s.M.dstM
      m_valM := access.valM
      M_dstE := s.M.dstE
      M_valE := s.M.valE
      M_valA := s.M.valA }
  { s with
    memory := access.memory
    forward := forward
    W := if stallW forward then s.W
      else ⟨access.stat, s.M.icode, s.M.valE, access.valM, s.M.dstE, s.M.dstM⟩ }

end Yess
