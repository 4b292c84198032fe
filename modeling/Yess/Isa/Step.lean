import Mathlib.Logic.Function.Basic
import Yess.Tools

/-!
# The instruction set simulator

`isa.c` and `yis.c`, the simulator that stands beside the assembler in
`contrib/sim`: a machine with a byte array for memory, one for the registers, and
one instruction a step.
-/

namespace Yess.Isa

/-! ## Memory and registers -/

/-- `BPL`: bytes per line. -/
abbrev bpl : Nat := 32

/-- `mem_rec`: an array of `len` bytes. -/
structure Mem where
  len : Nat
  contents : Nat → Byte

/-- `init_mem`: whole lines of zeros. -/
def initMem (len : Nat) : Mem := ⟨(len + bpl - 1) / bpl * bpl, fun _ => 0⟩

/-- Get a byte; `none` is `FALSE`. -/
def getByteVal (m : Mem) (pos : Int) : Option Byte :=
  if pos < 0 ∨ pos ≥ m.len then none else some (m.contents pos.toNat)

/-- Get 4 bytes.  The sum is an `int` in the source, and overflows for addresses only
that no memory has. -/
def getWordVal (m : Mem) (pos : Int) : Option Word :=
  if pos < 0 ∨ pos + 4 > m.len then none
  else
    some ((List.range 4).foldl
      (fun val i => val ||| (m.contents (pos.toNat + i)).setWidth 32 <<< (8 * i)) 0)

/-- The loop of `set_word_val`. -/
def setBytes (contents : Nat → Byte) (pos : Nat) (val : Word) : Nat → Nat → Byte
  | 0 => contents
  | count + 1 =>
      setBytes (Function.update contents pos ((val &&& 0xFF).setWidth 8)) (pos + 1)
        (val.sshiftRight 8) count

def setWordVal (m : Mem) (pos : Int) (val : Word) : Option Mem :=
  if pos < 0 ∨ pos + 4 > m.len then none
  else some { m with contents := setBytes m.contents pos.toNat val 4 }

abbrev regEsp : Nat := 4
abbrev regEbp : Nat := 5
abbrev regNone : Nat := 0xF
abbrev regErr : Nat := 0x10

def regTable : List Nat :=
  [0, 1, 2, 3, 4, 5, 6, 7, regErr, regErr, regErr, regErr, regErr, regErr, regErr, regNone, regErr]

def regValid (id : Nat) : Bool := id < regNone && regTable[id]? = some id

/-- The registers are a memory of 32 bytes. -/
def initReg : Mem := initMem 32

def getRegVal (r : Mem) (id : Nat) : Word :=
  if id ≥ regNone then 0 else (getWordVal r (id * 4 : Nat)).getD 0

def setRegVal (r : Mem) (id : Nat) (val : Word) : Mem :=
  if id < regNone then (setWordVal r (id * 4 : Nat) val).getD r else r

/-! ## Arithmetic -/

/-- `alu_t` and `cond_t` are taken from four bits of the instruction, whether or not
they name an operation or a condition. -/
abbrev aAdd : Nat := 0
abbrev aSub : Nat := 1
abbrev aAnd : Nat := 2
abbrev aXor : Nat := 3

def computeAlu (op : Nat) (argA argB : Word) : Word :=
  if op = aAdd then argA + argB
  else if op = aSub then argB - argA
  else if op = aAnd then argA &&& argB
  else if op = aXor then argA ^^^ argB
  else 0

/-- `PACK_CC` -/
def packCC (z s o : Bool) : BitVec 8 :=
  ((BitVec.ofBool z).setWidth 8 <<< 2) ||| ((BitVec.ofBool s).setWidth 8 <<< 1) |||
    (BitVec.ofBool o).setWidth 8

/-- `GET_ZF`, `GET_SF` and `GET_OF`. -/
def getZF (cc : BitVec 8) : Bool := (cc >>> 2) &&& 1 = 1
def getSF (cc : BitVec 8) : Bool := (cc >>> 1) &&& 1 = 1
def getOF (cc : BitVec 8) : Bool := cc &&& 1 = 1

def defaultCC : BitVec 8 := packCC true false false

def computeCC (op : Nat) (argA argB : Word) : BitVec 8 :=
  let val := computeAlu op argA argB
  let zero := val = 0
  let sign := val.toInt < 0
  let ovf : Bool :=
    if op = aAdd then
      decide (argA.toInt < 0) = decide (argB.toInt < 0) &&
        decide (val.toInt < 0) ≠ decide (argA.toInt < 0)
    else if op = aSub then
      decide (argA.toInt > 0) = decide (argB.toInt < 0) &&
        decide (val.toInt < 0) ≠ decide (argB.toInt < 0)
    else false
  packCC zero sign ovf

def condHolds (cc : BitVec 8) (bcond : Nat) : Bool :=
  let zf := getZF cc
  let sf := getSF cc
  let of := getOF cc
  match bcond with
  | 0 => true
  | 1 => (sf ^^ of) || zf
  | 2 => sf ^^ of
  | 3 => zf
  | 4 => zf ^^ true
  | 5 => sf ^^ of ^^ true
  | 6 => (sf ^^ of ^^ true) && (zf ^^ true)
  | _ => false

/-! ## One instruction -/

/-- `stat_t` -/
inductive Stat where
  | bub | aok | hlt | adr | ins | pip
  deriving DecidableEq, Repr

/-- `itype_t`; the last code names no instruction type. -/
inductive Itype where
  | halt | nop | rrmovl | irmovl | rmmovl | mrmovl | alu | jmp | call | ret | pushl | popl
  | iaddl | leave | pop2 | codeF
  deriving DecidableEq, Repr

def Itype.ofCode : Nat → Itype
  | 0x0 => .halt
  | 0x1 => .nop
  | 0x2 => .rrmovl
  | 0x3 => .irmovl
  | 0x4 => .rmmovl
  | 0x5 => .mrmovl
  | 0x6 => .alu
  | 0x7 => .jmp
  | 0x8 => .call
  | 0x9 => .ret
  | 0xA => .pushl
  | 0xB => .popl
  | 0xC => .iaddl
  | 0xD => .leave
  | 0xE => .pop2
  | _ => .codeF

/-- `state_rec` -/
structure State where
  pc : Word
  r : Mem
  m : Mem
  cc : BitVec 8

def hi4 (byte : Byte) : Nat := (byte >>> 4).toNat % 16

def lo4 (byte : Byte) : Nat := byte.toNat % 16

/-- The variables of `step_state` when it comes to its `switch`. -/
structure Fetched where
  hi0 : Itype
  lo0 : Nat
  hi1 : Nat
  lo1 : Nat
  ok1 : Bool
  okc : Bool
  cval : Word
  ftpc : Word

def needRegids (hi0 : Itype) : Bool :=
  hi0 = .rrmovl || hi0 = .alu || hi0 = .pushl || hi0 = .popl || hi0 = .irmovl || hi0 = .rmmovl ||
    hi0 = .mrmovl || hi0 = .iaddl

def needImm (hi0 : Itype) : Bool :=
  hi0 = .irmovl || hi0 = .rmmovl || hi0 = .mrmovl || hi0 = .jmp || hi0 = .call || hi0 = .iaddl

/-- The part of `step_state` that reads the instruction whose first byte is `byte0`. -/
def fetched (m : Mem) (pc : Word) (byte0 : Byte) : Fetched :=
  let hi0 := Itype.ofCode (hi4 byte0)
  let ftpc := pc + 1
  let byte1 := getByteVal m ftpc.toInt
  let regids := needRegids hi0
  let hi1 := if regids then hi4 (byte1.getD 0) else regNone
  let lo1 := if regids then lo4 (byte1.getD 0) else regNone
  let ok1 := if regids then byte1.isSome else true
  let ftpc := if regids then ftpc + 1 else ftpc
  let imm := needImm hi0
  let constant := getWordVal m ftpc.toInt
  { hi0 := hi0
    lo0 := lo4 byte0
    hi1 := hi1
    lo1 := lo1
    ok1 := ok1
    okc := if imm then constant.isSome else true
    cval := if imm then constant.getD 0 else 0
    ftpc := if imm then ftpc + 4 else ftpc }

/-- The `switch` of `step_state`: the state it leaves, and the status it returns. -/
def switch (s : State) (f : Fetched) : State × Stat :=
  match f.hi0 with
  | .nop => ({ s with pc := f.ftpc }, .aok)
  | .halt => (s, .hlt)
  | .rrmovl =>
      if !f.ok1 then (s, .adr)
      else if !regValid f.hi1 then (s, .ins)
      else if !regValid f.lo1 then (s, .ins)
      else
        let val := getRegVal s.r f.hi1
        ({ s with
            r := if condHolds s.cc f.lo0 then setRegVal s.r f.lo1 val else s.r
            pc := f.ftpc }, .aok)
  | .irmovl =>
      if !f.ok1 then (s, .adr)
      else if !f.okc then (s, .ins)
      else if !regValid f.lo1 then (s, .ins)
      else ({ s with r := setRegVal s.r f.lo1 f.cval, pc := f.ftpc }, .aok)
  | .rmmovl =>
      if !f.ok1 then (s, .adr)
      else if !f.okc then (s, .ins)
      else if !regValid f.hi1 then (s, .ins)
      else
        let cval := if regValid f.lo1 then f.cval + getRegVal s.r f.lo1 else f.cval
        match setWordVal s.m cval.toInt (getRegVal s.r f.hi1) with
        | none => (s, .adr)
        | some m => ({ s with m := m, pc := f.ftpc }, .aok)
  | .mrmovl =>
      if !f.ok1 then (s, .adr)
      else if !f.okc then (s, .ins)
      else if !regValid f.hi1 then (s, .ins)
      else
        let cval := if regValid f.lo1 then f.cval + getRegVal s.r f.lo1 else f.cval
        match getWordVal s.m cval.toInt with
        | none => (s, .adr)
        | some val => ({ s with r := setRegVal s.r f.hi1 val, pc := f.ftpc }, .aok)
  | .alu =>
      if !f.ok1 then (s, .adr)
      else
        let argA := getRegVal s.r f.hi1
        let argB := getRegVal s.r f.lo1
        ({ s with
            r := setRegVal s.r f.lo1 (computeAlu f.lo0 argA argB)
            cc := computeCC f.lo0 argA argB
            pc := f.ftpc }, .aok)
  | .jmp =>
      if !f.ok1 then (s, .adr)
      else if !f.okc then (s, .adr)
      else ({ s with pc := if condHolds s.cc f.lo0 then f.cval else f.ftpc }, .aok)
  | .call =>
      if !f.ok1 then (s, .adr)
      else if !f.okc then (s, .adr)
      else
        let val := getRegVal s.r regEsp - 4
        let r := setRegVal s.r regEsp val
        match setWordVal s.m val.toInt f.ftpc with
        | none => ({ s with r := r }, .adr)
        | some m => ({ s with r := r, m := m, pc := f.cval }, .aok)
  | .ret =>
      let dval := getRegVal s.r regEsp
      match getWordVal s.m dval.toInt with
      | none => (s, .adr)
      | some val => ({ s with r := setRegVal s.r regEsp (dval + 4), pc := val }, .aok)
  | .pushl =>
      if !f.ok1 then (s, .adr)
      else if !regValid f.hi1 then (s, .ins)
      else
        let val := getRegVal s.r f.hi1
        let dval := getRegVal s.r regEsp - 4
        let r := setRegVal s.r regEsp dval
        match setWordVal s.m dval.toInt val with
        | none => ({ s with r := r }, .adr)
        | some m => ({ s with r := r, m := m, pc := f.ftpc }, .aok)
  | .popl =>
      if !f.ok1 then (s, .adr)
      else if !regValid f.hi1 then (s, .ins)
      else
        let dval := getRegVal s.r regEsp
        let r := setRegVal s.r regEsp (dval + 4)
        match getWordVal s.m dval.toInt with
        | none => ({ s with r := r }, .adr)
        | some val => ({ s with r := setRegVal r f.hi1 val, pc := f.ftpc }, .aok)
  | .leave =>
      let dval := getRegVal s.r regEbp
      let r := setRegVal s.r regEsp (dval + 4)
      match getWordVal s.m dval.toInt with
      | none => ({ s with r := r }, .adr)
      | some val => ({ s with r := setRegVal r regEbp val, pc := f.ftpc }, .aok)
  | .iaddl =>
      if !f.ok1 then (s, .adr)
      else if !f.okc then (s, .ins)
      else if !regValid f.lo1 then (s, .ins)
      else
        let argB := getRegVal s.r f.lo1
        ({ s with
            r := setRegVal s.r f.lo1 (argB + f.cval)
            cc := computeCC aAdd f.cval argB
            pc := f.ftpc }, .aok)
  | .pop2 | .codeF => (s, .ins)

def stepState (s : State) : State × Stat :=
  match getByteVal s.m s.pc.toInt with
  | none => (s, .adr)
  | some byte0 => switch s (fetched s.m s.pc byte0)

/-! ## The simulator -/

/-- `new_state` with a loaded memory. -/
def newState (m : Mem) : State := ⟨0, initReg, m, defaultCC⟩

/-- The variables of `main` around its loop. -/
structure Run where
  step : Nat
  s : State
  e : Stat

/-- `for (step = 0; step < max_steps && e == STAT_AOK; step++)`, for the steps that are left. -/
def runSteps : Nat → Run → Run
  | 0, run => run
  | left + 1, run =>
      if run.e = .aok then
        let result := stepState run.s
        runSteps left ⟨run.step + 1, result.1, result.2⟩
      else run

/-- The loop of `yis` on a loaded memory. -/
def yis (maxSteps : Nat) (m : Mem) : Run := runSteps maxSteps ⟨0, newState m, .aok⟩

end Yess.Isa
