import Yess.MainLoop

/-!
# Instruction format

The encoding that the manual lists, one form for each instruction code, and the
round trip through memory: the fetch stage reads back what was stored.
-/

namespace Yess

open Lib.BitField

def Icode.nibble : Icode → BitVec 4
  | .halt => 0x0
  | .nop => 0x1
  | .rrmovl => 0x2
  | .irmovl => 0x3
  | .rmmovl => 0x4
  | .mrmovl => 0x5
  | .opl => 0x6
  | .jxx => 0x7
  | .call => 0x8
  | .ret => 0x9
  | .pushl => 0xA
  | .popl => 0xB
  | .dump => 0xC
  | .codeD => 0xD
  | .codeE => 0xE
  | .codeF => 0xF

@[simp] theorem Icode.ofCode_nibble (icode : Icode) :
    Icode.ofCode icode.nibble.toNat = icode := by
  cases icode <;> rfl

/-- What follows the opcode byte of an encoding. -/
inductive Form where
  | opcode | registers | constant | registersConstant
  deriving DecidableEq, Repr

/-- The encodings of the manual, by instruction code. -/
def Icode.form : Icode → Form
  | .rrmovl | .opl | .pushl | .popl => .registers
  | .irmovl | .rmmovl | .mrmovl => .registersConstant
  | .jxx | .call | .dump => .constant
  | .halt | .nop | .ret | .codeD | .codeE | .codeF => .opcode

/-- An instruction: a listed code, any function and register nibbles, any constant.
A nibble or a constant that the form does not have is not encoded. -/
structure Instruction where
  icode : Icode
  listed : icode.nibble.toNat ≤ 12
  ifun : BitVec 4
  rA : BitVec 4
  rB : BitVec 4
  constant : Word

def joinNibbles (high low : BitVec 4) : Byte := BitVec.ofNat 8 (16 * high.toNat + low.toNat)

def littleEndian (word : Word) : List Byte :=
  [byteAt word 0, byteAt word 1, byteAt word 2, byteAt word 3]

namespace Instruction

def bytes (i : Instruction) : List Byte :=
  let opcode := joinNibbles i.icode.nibble i.ifun
  let registers := joinNibbles i.rA i.rB
  match i.icode.form with
  | .opcode => [opcode]
  | .registers => [opcode, registers]
  | .constant => opcode :: littleEndian i.constant
  | .registersConstant => opcode :: registers :: littleEndian i.constant

def next (i : Instruction) (pc : Word) : Word := pc + BitVec.ofNat 32 i.bytes.length

/-- The contents of D that an instruction at `pc` calls for. -/
def decoded (i : Instruction) (pc : Word) : Dregister where
  stat := if i.icode = .halt then .shlt else .saok
  icode := i.icode
  ifun := i.ifun.setWidth 32
  rA := match i.icode.form with
    | .registers | .registersConstant => i.rA.toNat
    | _ => rNone
  rB := match i.icode.form with
    | .registers | .registersConstant => i.rB.toNat
    | _ => rNone
  valC := match i.icode.form with
    | .constant | .registersConstant => i.constant
    | _ => 0
  valP := i.next pc

end Instruction

/-! ## The tables of the fetch stage -/

theorem instructionValid_iff (icode : Icode) :
    instructionValid icode = true ↔ icode.nibble.toNat ≤ 12 := by
  cases icode <;> decide

theorem needRegids_eq (icode : Icode) :
    needRegids icode = (icode.form = .registers || icode.form = .registersConstant) := by
  cases icode <;> decide

theorem needValC_eq (icode : Icode) :
    needValC icode = (icode.form = .constant || icode.form = .registersConstant) := by
  cases icode <;> decide

theorem pcIncrement_eq (i : Instruction) (pc : Word) : pcIncrement pc i.icode = i.next pc := by
  obtain ⟨icode, listed, ifun, rA, rB, constant⟩ := i
  cases icode <;> rfl

/-! ## Nibbles and bytes -/

theorem getBits_joinNibbles_high (high low : BitVec 4) :
    getBits 4 7 ((joinNibbles high low).setWidth 32) = high.setWidth 32 := by
  have highBound := high.isLt
  have lowBound := low.isLt
  refine (@getBits_eq 4 7 (by decide) (by decide) _).trans ?_
  apply BitVec.eq_of_toNat_eq
  simp only [joinNibbles, BitVec.toNat_ushiftRight, BitVec.toNat_shiftLeft, BitVec.toNat_setWidth,
    BitVec.toNat_ofNat, Nat.shiftLeft_eq, Nat.shiftRight_eq_div_pow]
  omega

theorem getBits_joinNibbles_low (high low : BitVec 4) :
    getBits 0 3 ((joinNibbles high low).setWidth 32) = low.setWidth 32 := by
  have highBound := high.isLt
  have lowBound := low.isLt
  refine (@getBits_eq 0 3 (by decide) (by decide) _).trans ?_
  apply BitVec.eq_of_toNat_eq
  simp only [joinNibbles, BitVec.toNat_ushiftRight, BitVec.toNat_shiftLeft, BitVec.toNat_setWidth,
    BitVec.toNat_ofNat, Nat.shiftLeft_eq, Nat.shiftRight_eq_div_pow]
  omega

@[simp] theorem getIcode_joinNibbles (icode : Icode) (low : BitVec 4) :
    getIcode (joinNibbles icode.nibble low) false = icode := by
  have bound := icode.nibble.isLt
  simp only [getIcode, Bool.false_eq_true, if_false, getBits_joinNibbles_high,
    BitVec.toNat_setWidth]
  rw [Nat.mod_eq_of_lt (by omega), Icode.ofCode_nibble]

@[simp] theorem getIfun_joinNibbles (high low : BitVec 4) :
    getIfun (joinNibbles high low) false = low.setWidth 32 := by
  simp only [getIfun, Bool.false_eq_true, if_false, getBits_joinNibbles_low]

@[simp] theorem getRegA_joinNibbles (high low : BitVec 4) :
    getRegA (joinNibbles high low) false = high.toNat := by
  have bound := high.isLt
  simp only [getRegA, Bool.false_eq_true, if_false, getBits_joinNibbles_high,
    BitVec.toNat_setWidth]
  rw [Nat.mod_eq_of_lt (by omega)]

@[simp] theorem getRegB_joinNibbles (high low : BitVec 4) :
    getRegB (joinNibbles high low) false = low.toNat := by
  have bound := low.isLt
  simp only [getRegB, Bool.false_eq_true, if_false, getBits_joinNibbles_low,
    BitVec.toNat_setWidth]
  rw [Nat.mod_eq_of_lt (by omega)]

/-! ## Reading stored bytes -/

/-- The bytes can be read one after the other from `pc` on. -/
def Reads (memory : Memory) (pc : Word) (bytes : List Byte) : Prop :=
  ∀ (offset : Nat) (small : offset < bytes.length),
    getByte memory (pc + BitVec.ofNat 32 offset).toInt = (bytes[offset], false)

theorem reads_putBytes {memory : Memory} {pc : Word} {bytes : List Byte}
    (inside : 0 ≤ pc.toInt ∧ pc.toInt + bytes.length ≤ 65536) :
    Reads (putBytes memory pc.toInt bytes) pc bytes := by
  intro offset small
  rw [toInt_add_ofNat inside small]
  exact getByte_putBytes inside small

theorem Reads.head {memory : Memory} {pc : Word} {byte : Byte} {rest : List Byte}
    (reads : Reads memory pc (byte :: rest)) : getByte memory pc.toInt = (byte, false) := by
  have first := reads 0 (Nat.succ_pos _)
  rwa [BitVec.add_zero] at first

theorem Reads.tail {memory : Memory} {pc : Word} {byte : Byte} {rest : List Byte}
    (reads : Reads memory pc (byte :: rest)) : Reads memory (pc + 1) rest := by
  intro offset small
  have later := reads (offset + 1) (Nat.succ_lt_succ small)
  have place : pc + BitVec.ofNat 32 (offset + 1) = pc + 1 + BitVec.ofNat 32 offset := by
    rw [Nat.add_comm, BitVec.ofNat_add, ← BitVec.add_assoc]
    rfl
  rwa [place] at later

theorem getValC_littleEndian {memory : Memory} {pc : Word} {byte : Byte} {constant : Word}
    (reads : Reads memory pc (byte :: littleEndian constant)) :
    getValC memory pc = (constant, false) := by
  have small (offset : Nat) (below : offset < 5) :
      offset < (byte :: littleEndian constant).length := below
  have byte0 : getByte memory (pc + 1).toInt = (byteAt constant 0, false) :=
    reads 1 (small 1 (by decide))
  have byte1 : getByte memory (pc + 2).toInt = (byteAt constant 1, false) :=
    reads 2 (small 2 (by decide))
  have byte2 : getByte memory (pc + 3).toInt = (byteAt constant 2, false) :=
    reads 3 (small 3 (by decide))
  have byte3 : getByte memory (pc + 4).toInt = (byteAt constant 3, false) :=
    reads 4 (small 4 (by decide))
  simp only [getValC, byte0, byte1, byte2, byte3, Bool.false_eq_true, if_false, buildWord_eq,
    joinBytes_byteAt]

/-- An instruction whose bytes can be read is fetched with all its parts. -/
theorem fetchInstruction_bytes {memory : Memory} {pc : Word} {i : Instruction}
    (reads : Reads memory pc i.bytes) : fetchInstruction memory pc = i.decoded pc := by
  have valid := (instructionValid_iff i.icode).mpr i.listed
  have next := pcIncrement_eq i pc
  have regids := needRegids_eq i.icode
  have valC := needValC_eq i.icode
  unfold Instruction.bytes at reads
  unfold fetchInstruction Instruction.decoded
  cases form : i.icode.form with
  | opcode =>
      simp only [form, reduceCtorEq, decide_false, Bool.or_self] at reads regids valC
      simp [reads.head, valid, regids, valC, next]
  | registers =>
      simp only [form, reduceCtorEq, decide_true, decide_false, Bool.or_self, Bool.or_false]
        at reads regids valC
      have second := reads.tail.head
      simp only [reads.head, second, getIcode_joinNibbles, getIfun_joinNibbles,
        getRegA_joinNibbles, getRegB_joinNibbles, valid, regids, valC, next]
      rfl
  | constant =>
      simp only [form, reduceCtorEq, decide_true, decide_false, Bool.or_self, Bool.or_false]
        at reads regids valC
      have word := getValC_littleEndian reads
      simp [reads.head, word, valid, regids, valC, next]
  | registersConstant =>
      simp only [form, reduceCtorEq, decide_true, decide_false, Bool.false_or]
        at reads regids valC
      have second := reads.tail.head
      have word := getValC_littleEndian reads.tail
      simp only [reads.head, second, word, getIcode_joinNibbles, getIfun_joinNibbles,
        getRegA_joinNibbles, getRegB_joinNibbles, valid, regids, valC, next, if_true]
      rfl

/-- For every instruction and every address at which it fits: stored there byte by
byte in any memory, it is what the fetch stage puts in D when that address is
selected and nothing stalls, with the prediction that goes with it. -/
theorem fetchStage_putBytes (i : Instruction) (s : State) (memory : Memory)
    (inside : 0 ≤ (selectPC s.forward s.F).toInt ∧
      (selectPC s.forward s.F).toInt + i.bytes.length ≤ 65536)
    (stored : s.memory = putBytes memory (selectPC s.forward s.F).toInt i.bytes)
    (noStallF : stallF s.forward = false) (noStallD : stallD s.forward = false)
    (noBubble : bubbleD s.forward = false) :
    (fetchStage s).D = i.decoded (selectPC s.forward s.F) ∧
      (fetchStage s).F.predPC =
        if i.icode = .jxx ∨ i.icode = .call then i.constant
        else i.next (selectPC s.forward s.F) := by
  have fetched := fetchInstruction_bytes (@reads_putBytes memory _ _ inside)
  rw [← stored] at fetched
  unfold fetchStage
  simp only [fetched, noStallF, noStallD, noBubble, Bool.false_eq_true, if_false, Bool.not_false,
    if_true, true_and]
  have targetForm : i.icode = .jxx ∨ i.icode = .call → i.icode.form = .constant := by
    rintro (jxx | call)
    · rw [jxx]
      rfl
    · rw [call]
      rfl
  unfold predictPC
  by_cases target : i.icode = .jxx ∨ i.icode = .call
  · have sameTarget : (i.decoded (selectPC s.forward s.F)).icode = .jxx ∨
        (i.decoded (selectPC s.forward s.F)).icode = .call := target
    rw [if_pos target, if_pos sameTarget]
    simp only [Instruction.decoded, targetForm target]
  · have noTarget : ¬ ((i.decoded (selectPC s.forward s.F)).icode = .jxx ∨
        (i.decoded (selectPC s.forward s.F)).icode = .call) := target
    rw [if_neg target, if_neg noTarget]
    rfl

/-- An `irmovl` in the last six bytes of memory, across a word boundary. -/
def lastIrmovl : Instruction := ⟨.irmovl, by decide, 0, 8, 3, 0x12345678⟩

/-- The machine that is about to fetch it. -/
def beforeLastIrmovl : State :=
  { setupyess .zero (putBytes initMemory 65530 lastIrmovl.bytes) with F := ⟨65530⟩ }

/-- The round trip of that instruction. -/
theorem fetchStage_putBytes_lastIrmovl :
    (fetchStage beforeLastIrmovl).D = ⟨.saok, .irmovl, 0, 8, 3, 0x12345678, 65536⟩ ∧
      (fetchStage beforeLastIrmovl).F.predPC = 65536 :=
  fetchStage_putBytes lastIrmovl beforeLastIrmovl initMemory (by decide) rfl (by decide)
    (by decide) (by decide)

end Yess
