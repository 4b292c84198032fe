import Yess.Memory
import Yess.Registers

/-!
# Instructions, pipeline registers and the forward structure

The data that the five stages share: instruction and status codes, the five
pipeline registers, and the structure `forward` through which a stage hands
values to the stages that run after it in the same cycle.
-/

namespace Yess

/-- Instruction codes.  The codes `0xD`, `0xE` and `0xF` name no instruction. -/
inductive Icode where
  | halt | nop | rrmovl | irmovl | rmmovl | mrmovl | opl | jxx
  | call | ret | pushl | popl | dump | codeD | codeE | codeF
  deriving DecidableEq, Repr

def Icode.ofCode : Nat → Icode
  | 0x0 => .halt
  | 0x1 => .nop
  | 0x2 => .rrmovl
  | 0x3 => .irmovl
  | 0x4 => .rmmovl
  | 0x5 => .mrmovl
  | 0x6 => .opl
  | 0x7 => .jxx
  | 0x8 => .call
  | 0x9 => .ret
  | 0xA => .pushl
  | 0xB => .popl
  | 0xC => .dump
  | 0xD => .codeD
  | 0xE => .codeE
  | _ => .codeF

/-- Status codes: normal operation, halt, bad address, invalid instruction. -/
inductive Stat where
  | saok | shlt | sadr | sins
  deriving DecidableEq, Repr

abbrev fNone : Word := 0

/-! ## Pipeline registers -/

/-- The F register: input of the fetch stage. -/
structure Fregister where
  predPC : Word
  deriving DecidableEq, Repr

/-- The D register: input of the decode stage. -/
@[ext] structure Dregister where
  stat : Stat
  icode : Icode
  ifun : Word
  rA : Rregister
  rB : Rregister
  valC : Word
  valP : Word
  deriving DecidableEq, Repr

/-- The E register: input of the execute stage. -/
@[ext] structure Eregister where
  stat : Stat
  icode : Icode
  ifun : Word
  valC : Word
  valA : Word
  valB : Word
  dstE : Rregister
  dstM : Rregister
  srcA : Rregister
  srcB : Rregister
  deriving DecidableEq, Repr

/-- The M register: input of the memory stage. -/
@[ext] structure Mregister where
  stat : Stat
  icode : Icode
  Cnd : Word
  valE : Word
  valA : Word
  dstE : Rregister
  dstM : Rregister
  deriving DecidableEq, Repr

/-- The W register: input of the writeback stage. -/
@[ext] structure Wregister where
  stat : Stat
  icode : Icode
  valE : Word
  valM : Word
  dstE : Rregister
  dstM : Rregister
  deriving DecidableEq, Repr

def clearFregister : Fregister := ⟨0⟩

def clearDregister : Dregister := ⟨.saok, .nop, fNone, rNone, rNone, 0, 0⟩

def clearEregister : Eregister :=
  ⟨.saok, .nop, fNone, 0, 0, 0, rNone, rNone, rNone, rNone⟩

def clearMregister : Mregister := ⟨.saok, .nop, 0, 0, 0, rNone, rNone⟩

def clearWregister : Wregister := ⟨.saok, .nop, 0, 0, rNone, rNone⟩

/-- `forwardType`.  The field names are the ones of the source, because the case
of the stage letter tells a register's content (`M_icode`) from a value computed
in the cycle (`m_stat`). -/
structure ForwardType where
  D_icode : Icode
  d_srcA : Rregister
  d_srcB : Rregister
  E_icode : Icode
  E_dstM : Rregister
  e_Cnd : Word
  e_dstE : Rregister
  e_valE : Word
  M_icode : Icode
  M_Cnd : Word
  M_dstE : Rregister
  M_valE : Word
  M_dstM : Rregister
  M_valA : Word
  m_stat : Stat
  m_valM : Word
  W_stat : Stat
  W_icode : Icode
  W_dstE : Rregister
  W_valE : Word
  W_dstM : Rregister
  W_valM : Word
  deriving DecidableEq, Repr

/-- The whole machine between two function calls of the main loop. -/
structure State where
  memory : Memory
  registers : Registers
  CC : Word
  F : Fregister
  D : Dregister
  E : Eregister
  M : Mregister
  W : Wregister
  forward : ForwardType

/-- The three statuses that end a program. -/
def Stat.exceptional (stat : Stat) : Bool :=
  stat = .sadr || stat = .sins || stat = .shlt

@[simp] theorem Stat.exceptional_eq_false_iff (stat : Stat) :
    stat.exceptional = false ↔ stat = .saok := by
  cases stat <;> decide

@[simp] theorem Stat.exceptional_eq_true_iff (stat : Stat) :
    stat.exceptional = true ↔ stat ≠ .saok := by
  cases stat <;> decide

end Yess
