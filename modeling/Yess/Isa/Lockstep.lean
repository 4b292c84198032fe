import Yess.Fields
import Yess.Isa.Flags
import Yess.Isa.Memory
import Yess.Pipeline.Instructions

/-!
# The simulator and the sequential machine in lockstep

One `step_state` does what one instruction of the sequential machine does, for the
instructions that both know.
-/

namespace Yess.Isa

open Lib.BitField Lib.ByteStore

/-! ## Reading an instruction -/

def itype : Icode → Itype
  | .halt => .halt
  | .nop => .nop
  | .rrmovl => .rrmovl
  | .irmovl => .irmovl
  | .rmmovl => .rmmovl
  | .mrmovl => .mrmovl
  | .opl => .alu
  | .jxx => .jmp
  | .call => .call
  | .ret => .ret
  | .pushl => .pushl
  | .popl => .popl
  | .dump => .iaddl
  | .codeD => .leave
  | .codeE => .pop2
  | .codeF => .codeF

theorem itype_getIcode (byte : Byte) : Itype.ofCode (hi4 byte) = itype (getIcode byte false) := by
  revert byte
  decide +kernel

theorem hi4_eq (byte : Byte) : (hi4 byte : Int) = getRegA byte false := by
  revert byte
  decide +kernel

theorem lo4_eq (byte : Byte) :
    (lo4 byte : Int) = getRegB byte false ∧ lo4 byte = (getIfun byte false).toNat := by
  revert byte
  decide +kernel

/-- But for code `0xC`, the two machines ask for the same bytes. -/
theorem needRegids_itype {icode : Icode} (noDump : icode ≠ .dump) :
    needRegids (itype icode) = Yess.needRegids icode ∧
      needImm (itype icode) = needValC icode := by
  cases icode with
  | dump => exact absurd rfl noDump
  | _ => exact ⟨rfl, rfl⟩

theorem pcIncrement_length (pc : Word) (icode : Icode) :
    pcIncrement pc icode = pc + BitVec.ofNat 32 (instructionLength icode) := by
  cases icode <;> rfl

/-- The simulator has read what the sequential machine has fetched. -/
structure FetchedAs (D : Dregister) (f : Fetched) : Prop where
  hi0 : f.hi0 = itype D.icode
  lo0 : f.lo0 = D.ifun.toNat
  ids : Yess.needRegids D.icode = true → (f.hi1 : Int) = D.rA ∧ (f.lo1 : Int) = D.rB
  cval : needValC D.icode = true → f.cval = D.valC
  ok1 : f.ok1 = true
  okc : f.okc = true
  ftpc : f.ftpc = D.valP

theorem SameBytes.constant {m : Mem} {memory : Memory} (same : SameBytes m memory) {pc : Word}
    (inside : 0 ≤ pc.toInt ∧ pc.toInt + 5 ≤ m.len) :
    Isa.getWordVal m (pc + 1).toInt = some (getValC memory pc).1 := by
  have small := same.small
  have address (offset : Nat) (below : offset < 5) :
      (pc + BitVec.ofNat 32 offset).toInt = pc.toInt + offset :=
    @toInt_add_ofNat pc 5 offset (by omega) below
  have one : (pc + 1).toInt = pc.toInt + 1 := address 1 (by decide)
  have two : (pc + 2).toInt = pc.toInt + 1 + 1 := (address 2 (by decide)).trans (by omega)
  have three : (pc + 3).toInt = pc.toInt + 1 + 2 := (address 3 (by decide)).trans (by omega)
  have four : (pc + 4).toInt = pc.toInt + 1 + 3 := (address 4 (by decide)).trans (by omega)
  have noError (pos : Int) (within : 0 ≤ pos ∧ pos < m.len) := (same.getByteVal within).2
  unfold getValC
  rw [one, two, three, four]
  simp only [noError (pc.toInt + 1) (by omega), noError (pc.toInt + 1 + 1) (by omega),
    noError (pc.toInt + 1 + 2) (by omega), noError (pc.toInt + 1 + 3) (by omega),
    Bool.false_eq_true, if_false]
  rw [buildWord_eq]
  exact same.getWordVal_bytes (by omega)

def Inside (m : Mem) (pc : Word) (icode : Icode) : Prop :=
  0 ≤ pc.toInt ∧ pc.toInt + instructionLength icode ≤ m.len

section

variable {m : Mem} {memory : Memory} {pc : Word} {icode : Icode} (same : SameBytes m memory)
  (inside : Inside m pc icode)
include same inside

theorem Inside.firstByte :
    getByteVal m pc.toInt = some (getByte memory pc.toInt).1 ∧
      (getByte memory pc.toInt).2 = false := by
  have long := instructionLength_pos icode
  obtain ⟨lower, upper⟩ := inside
  exact same.getByteVal ⟨lower, by omega⟩

theorem Inside.toInt_next (needs : Yess.needRegids icode = true) :
    (pc + 1).toInt = pc.toInt + 1 := by
  have small := same.small
  obtain ⟨lower, upper⟩ := inside
  unfold instructionLength at upper
  rw [if_pos needs] at upper
  exact @toInt_add_ofNat pc 2 1 (by omega) (by decide)

theorem Inside.registerByte (needs : Yess.needRegids icode = true) :
    getByteVal m (pc + 1).toInt = some (getByte memory (pc + 1).toInt).1 ∧
      (getByte memory (pc + 1).toInt).2 = false := by
  have next := inside.toInt_next same needs
  obtain ⟨lower, upper⟩ := inside
  unfold instructionLength at upper
  rw [if_pos needs] at upper
  rw [next]
  exact same.getByteVal (by omega)

theorem Inside.constant (constant : needValC icode = true) :
    Isa.getWordVal m (if Yess.needRegids icode then pc + 1 + 1 else pc + 1).toInt =
      some (getValC memory (if Yess.needRegids icode then pc + 1 else pc)).1 := by
  cases needs : Yess.needRegids icode with
  | true =>
      have next := inside.toInt_next same needs
      obtain ⟨lower, upper⟩ := inside
      unfold instructionLength at upper
      rw [if_pos needs, if_pos constant] at upper
      refine same.constant ?_
      rw [next]
      omega
  | false =>
      obtain ⟨lower, upper⟩ := inside
      unfold instructionLength at upper
      rw [if_neg (Bool.eq_false_iff.mp needs), if_pos constant] at upper
      refine same.constant ?_
      omega

end

/-- The simulator comes to the address behind the instruction part by part. -/
theorem pcIncrement_parts (pc : Word) (icode : Icode) :
    (if needValC icode then (if Yess.needRegids icode then pc + 1 + 1 else pc + 1) + 4
      else if Yess.needRegids icode then pc + 1 + 1 else pc + 1) = pcIncrement pc icode := by
  rw [pcIncrement_length, instructionLength]
  cases Yess.needRegids icode with
  | true =>
      cases needValC icode with
      | true => exact (BitVec.add_assoc _ _ _).trans (BitVec.add_assoc _ _ _)
      | false => exact BitVec.add_assoc _ _ _
  | false =>
      cases needValC icode with
      | true => exact BitVec.add_assoc _ _ _
      | false => rfl

/-- The simulator reads the instruction that the sequential machine fetches, when its
bytes are in the memory of both. -/
theorem fetchedAs {m : Mem} {memory : Memory} {pc : Word} (same : SameBytes m memory)
    (valid : instructionValid (fetchInstruction memory pc).icode = true)
    (noDump : (fetchInstruction memory pc).icode ≠ .dump)
    (inside : Inside m pc (fetchInstruction memory pc).icode) :
    ∃ byte0, getByteVal m pc.toInt = some byte0 ∧
      FetchedAs (fetchInstruction memory pc) (fetched m pc byte0) := by
  obtain ⟨read, noError⟩ := inside.firstByte same
  refine ⟨_, read, ?_⟩
  have code := fetchInstruction_icode memory pc
  rw [noError] at code
  rw [code] at valid noDump inside
  obtain ⟨regids, imm⟩ := needRegids_itype noDump
  have registerByte := inside.registerByte same
  have constant := inside.constant same
  have behind := pcIncrement_parts pc (getIcode (getByte memory pc.toInt).1 false)
  unfold fetchInstruction fetched
  dsimp only
  rw [noError, valid, itype_getIcode, regids, imm]
  generalize getIcode (getByte memory pc.toInt).1 false = icode at *
  simp only [Bool.false_eq_true, Bool.not_true, if_false]
  refine ⟨rfl, (lo4_eq _).2, fun needs => ?_, fun asked => ?_, ?_, ?_, behind⟩
  · obtain ⟨regRead, regNoError⟩ := registerByte needs
    simp only [needs, if_true, regRead, regNoError, Option.getD_some]
    exact ⟨hi4_eq _, (lo4_eq _).1⟩
  · simp only [asked, if_true]
    rw [constant asked, Option.getD_some]
  · cases needs : Yess.needRegids icode with
    | true =>
        simp only [if_true]
        rw [(registerByte needs).1]
        rfl
    | false => rfl
  · cases asked : needValC icode with
    | true =>
        simp only [if_true]
        rw [constant asked]
        rfl
    | false => rfl

/-! ## One step -/

/-- The instruction names a program register where the simulator insists on one. -/
structure NamesRegisters (D : Dregister) : Prop where
  rA : D.icode = .rrmovl ∨ D.icode = .rmmovl ∨ D.icode = .mrmovl ∨ D.icode = .pushl ∨
    D.icode = .popl → IsRegister D.rA
  rB : D.icode = .rrmovl ∨ D.icode = .irmovl → IsRegister D.rB

/-- The instruction means the same to both machines: it is no `DUMP`, names registers
where it has to, lies with its data inside the `len` bytes of the simulator, asks for no
condition before one is `known`, and is not the subtraction whose overflow the pipeline
misses. -/
structure Common (known : Prop) (len : Nat) (σ : SeqState) : Prop where
  noDump : σ.instruction.icode ≠ .dump
  registers : NamesRegisters σ.instruction
  bytes : 0 ≤ σ.pc.toInt ∧ σ.pc.toInt + instructionLength σ.instruction.icode ≤ len
  data : memRead σ.executed.M = true ∨ memWrite σ.executed.M = true →
    (selectMemoryAddr σ.executed.M).toInt + 4 ≤ len
  condition : σ.instruction.icode = .rrmovl ∨ σ.instruction.icode = .jxx →
    σ.instruction.ifun = 0 ∨ known
  difference : σ.instruction.icode = .opl → ¬ (σ.instruction.ifun = subl ∧
    σ.operands.valA.toInt = intMin ∧ σ.operands.valB.toInt = 0)

theorem namesRegisters_iff (D : Dregister) :
    NamesRegisters D ↔
      (D.icode = .rrmovl ∨ D.icode = .rmmovl ∨ D.icode = .mrmovl ∨ D.icode = .pushl ∨
        D.icode = .popl → IsRegister D.rA) ∧
      (D.icode = .rrmovl ∨ D.icode = .irmovl → IsRegister D.rB) :=
  ⟨fun names => ⟨names.rA, names.rB⟩, fun ⟨rA, rB⟩ => ⟨rA, rB⟩⟩

instance (D : Dregister) : Decidable (NamesRegisters D) :=
  decidable_of_iff' _ (namesRegisters_iff D)

theorem common_iff (known : Prop) (len : Nat) (σ : SeqState) :
    Common known len σ ↔
      σ.instruction.icode ≠ .dump ∧ NamesRegisters σ.instruction ∧
      (0 ≤ σ.pc.toInt ∧ σ.pc.toInt + instructionLength σ.instruction.icode ≤ len) ∧
      (memRead σ.executed.M = true ∨ memWrite σ.executed.M = true →
        (selectMemoryAddr σ.executed.M).toInt + 4 ≤ len) ∧
      (σ.instruction.icode = .rrmovl ∨ σ.instruction.icode = .jxx →
        σ.instruction.ifun = 0 ∨ known) ∧
      (σ.instruction.icode = .opl → ¬ (σ.instruction.ifun = subl ∧
        σ.operands.valA.toInt = intMin ∧ σ.operands.valB.toInt = 0)) :=
  ⟨fun c => ⟨c.noDump, c.registers, c.bytes, c.data, c.condition, c.difference⟩,
    fun ⟨noDump, registers, bytes, data, condition, difference⟩ =>
      ⟨noDump, registers, bytes, data, condition, difference⟩⟩

instance (known : Prop) [Decidable known] (len : Nat) (σ : SeqState) :
    Decidable (Common known len σ) :=
  decidable_of_iff' _ (common_iff known len σ)

/-- The simulator is where the sequential machine is; the condition codes agree when
they are `known`. -/
structure Related (known : Prop) (σ : SeqState) (s : State) : Prop where
  pc : s.pc = σ.pc
  registers : Holds s.r σ.registers
  memory : SameBytes s.m σ.memory
  cc : known → SameCC s.cc σ.CC

theorem regValid_of_isRegister {id : Nat} {reg : Rregister} (same : (id : Int) = reg)
    (isRegister : IsRegister reg) : regValid id = true := by
  rw [regValid_eq, decide_eq_true_eq]
  have upper := isRegister.2
  simp only [regSize] at upper
  omega

theorem Holds.get_valid {r : Mem} {file : RegisterFile} (holds : Holds r file) (id : Nat)
    (value : Word) :
    (if regValid id then value + getRegVal r id else value) = file.read id + value := by
  rw [holds.get, BitVec.add_comm (file.read id)]
  split
  · rfl
  · case isFalse invalid =>
      have notRegister : ¬ IsRegister id := by
        rintro ⟨-, upper⟩
        refine invalid ?_
        rw [regValid_eq, decide_eq_true_eq]
        simp only [regSize] at upper
        omega
      rw [RegisterFile.read, dif_neg notRegister]
      exact (BitVec.add_zero value).symm

theorem Related.condHolds {known : Prop} {σ : SeqState} {s : State} (related : Related known σ s)
    (asked : σ.instruction.ifun = 0 ∨ known) :
    condHolds s.cc σ.instruction.ifun.toNat = decide σ.Taken := by
  rcases asked with always | known
  · have taken : σ.Taken := by
      unfold SeqState.Taken
      rw [always]
      rfl
    rw [always, decide_eq_true taken]
    rfl
  · exact (related.cc known).condHolds _

/-- Both machines execute the instruction that the simulator has read into `f`. -/
structure Executes (known : Prop) (σ : SeqState) (s : State) (f : Fetched) : Prop where
  related : Related known σ s
  common : Common known s.m.len σ
  fetched : FetchedAs σ.instruction f
  running : ¬ σ.Stops

/-- The simulator executes it to the end and is then where the sequential machine is. -/
def StepsTo (known : Prop) (σ : SeqState) (s : State) (f : Fetched) : Prop :=
  ∃ next, switch s f = (next, .aok) ∧ next.m.len = s.m.len ∧
    Related (known ∨ σ.instruction.icode = .opl) σ.next next

namespace Executes

variable {known : Prop} {σ : SeqState} {s : State} {f : Fetched}

theorem regA (executes : Executes known σ s f)
    (needs : Yess.needRegids σ.instruction.icode = true) :
    getRegVal s.r f.hi1 = σ.reg σ.instruction.rA := by
  rw [executes.related.registers.get, (executes.fetched.ids needs).1]

theorem regB (executes : Executes known σ s f)
    (needs : Yess.needRegids σ.instruction.icode = true) :
    getRegVal s.r f.lo1 = σ.reg σ.instruction.rB := by
  rw [executes.related.registers.get, (executes.fetched.ids needs).2]

theorem setB (executes : Executes known σ s f)
    (needs : Yess.needRegids σ.instruction.icode = true) (val : Word) :
    Holds (setRegVal s.r f.lo1 val) (σ.registers.write σ.instruction.rB val) := by
  rw [← (executes.fetched.ids needs).2]
  exact executes.related.registers.set _ _

theorem setA (executes : Executes known σ s f)
    (needs : Yess.needRegids σ.instruction.icode = true) (val : Word) :
    Holds (setRegVal s.r f.hi1 val) (σ.registers.write σ.instruction.rA val) := by
  rw [← (executes.fetched.ids needs).1]
  exact executes.related.registers.set _ _

theorem regEsp (executes : Executes known σ s f) : getRegVal s.r Isa.regEsp = σ.reg rEsp :=
  executes.related.registers.get _

theorem setEsp (executes : Executes known σ s f) (val : Word) :
    Holds (setRegVal s.r Isa.regEsp val) (σ.registers.write rEsp val) :=
  executes.related.registers.set Isa.regEsp val

/-- The condition codes are the ones that the sequential machine leaves, if it leaves
them as they are. -/
theorem cc (executes : Executes known σ s f) (noOpl : σ.instruction.icode ≠ .opl) :
    known ∨ σ.instruction.icode = .opl → SameCC s.cc σ.CC := by
  rintro (isKnown | opl)
  · exact executes.related.cc isKnown
  · exact absurd opl noOpl

theorem accepted (executes : Executes known σ s f) : σ.dataRejected = false := by
  obtain ⟨inside, valid, noHalt⟩ := SeqState.of_not_stops executes.running
  have clear := mt (SeqState.stops_iff inside valid noHalt).mpr executes.running
  rw [← Bool.not_eq_true]
  exact (not_or.mp clear).2

theorem defined (executes : Executes known σ s f) (code : σ.instruction.icode = .opl) :
    σ.instruction.ifun.toNat ≤ 3 := by
  obtain ⟨inside, valid, noHalt⟩ := SeqState.of_not_stops executes.running
  have clear := mt (SeqState.stops_iff inside valid noHalt).mpr executes.running
  exact Nat.not_lt.mp fun undefined => clear (Or.inl ⟨code, undefined⟩)

theorem nop (executes : Executes known σ s f) (code : σ.instruction.icode = .nop) :
    StepsTo known σ s f := by
  unfold StepsTo switch
  rw [executes.fetched.hi0, code, SeqState.next_nop code]
  exact ⟨_, rfl, rfl, executes.fetched.ftpc, executes.related.registers, executes.related.memory,
    code ▸ executes.cc (by rw [code]; decide)⟩

theorem rrmovl (executes : Executes known σ s f) (code : σ.instruction.icode = .rrmovl) :
    StepsTo known σ s f := by
  have needs : Yess.needRegids σ.instruction.icode = true := by rw [code]; rfl
  have validA := regValid_of_isRegister (executes.fetched.ids needs).1
    (executes.common.registers.rA (Or.inl code))
  have validB := regValid_of_isRegister (executes.fetched.ids needs).2
    (executes.common.registers.rB (Or.inl code))
  have taken := executes.related.condHolds (executes.common.condition (Or.inl code))
  have cc := executes.cc (by rw [code]; decide)
  unfold StepsTo switch
  rw [executes.fetched.hi0, code, SeqState.next_rrmovl code]
  dsimp only [itype]
  rw [executes.fetched.ok1, validA, validB, executes.fetched.lo0, taken, executes.regA needs]
  refine ⟨_, rfl, rfl, executes.fetched.ftpc, ?_, executes.related.memory, code ▸ cc⟩
  by_cases taken : σ.Taken
  · simp only [taken, decide_true, if_true]
    exact executes.setB needs _
  · simp only [taken, decide_false, Bool.false_eq_true, if_false]
    exact executes.related.registers

theorem irmovl (executes : Executes known σ s f) (code : σ.instruction.icode = .irmovl) :
    StepsTo known σ s f := by
  have needs : Yess.needRegids σ.instruction.icode = true := by rw [code]; rfl
  have constant : needValC σ.instruction.icode = true := by rw [code]; rfl
  have validB := regValid_of_isRegister (executes.fetched.ids needs).2
    (executes.common.registers.rB (Or.inr code))
  have cc := executes.cc (by rw [code]; decide)
  unfold StepsTo switch
  rw [executes.fetched.hi0, code, SeqState.next_irmovl code]
  dsimp only [itype]
  rw [executes.fetched.ok1, executes.fetched.okc, validB, executes.fetched.cval constant]
  exact ⟨_, rfl, rfl, executes.fetched.ftpc, executes.setB needs _, executes.related.memory,
    code ▸ cc⟩

theorem rmmovl (executes : Executes known σ s f) (code : σ.instruction.icode = .rmmovl) :
    StepsTo known σ s f := by
  have needs : Yess.needRegids σ.instruction.icode = true := by rw [code]; rfl
  have constant : needValC σ.instruction.icode = true := by rw [code]; rfl
  have validA := regValid_of_isRegister (executes.fetched.ids needs).1
    (executes.common.registers.rA (Or.inr (Or.inl code)))
  have accepted := executes.accepted
  rw [SeqState.dataRejected_rmmovl code] at accepted
  have inside := executes.common.data (Or.inr (by rw [memWrite, SeqState.executed_icode, code]))
  rw [SeqState.address_rmmovl code] at inside
  obtain ⟨stored, isStored, len, memory⟩ := executes.related.memory.setWordVal accepted inside
  have cc := executes.cc (by rw [code]; decide)
  unfold StepsTo switch
  rw [executes.fetched.hi0, code, SeqState.next_rmmovl code]
  dsimp only [itype]
  rw [executes.fetched.ok1, executes.fetched.okc, validA, executes.regA needs,
    executes.related.registers.get_valid, (executes.fetched.ids needs).2,
    executes.fetched.cval constant, isStored]
  exact ⟨_, rfl, len, executes.fetched.ftpc, executes.related.registers, memory, code ▸ cc⟩

theorem mrmovl (executes : Executes known σ s f) (code : σ.instruction.icode = .mrmovl) :
    StepsTo known σ s f := by
  have needs : Yess.needRegids σ.instruction.icode = true := by rw [code]; rfl
  have constant : needValC σ.instruction.icode = true := by rw [code]; rfl
  have validA := regValid_of_isRegister (executes.fetched.ids needs).1
    (executes.common.registers.rA (Or.inr (Or.inr (Or.inl code))))
  have accepted := executes.accepted
  rw [SeqState.dataRejected_mrmovl code] at accepted
  have inside := executes.common.data (Or.inl (by rw [memRead, SeqState.executed_icode, code]))
  rw [SeqState.address_mrmovl code] at inside
  have read := executes.related.memory.getWordVal accepted inside
  have cc := executes.cc (by rw [code]; decide)
  unfold StepsTo switch
  rw [executes.fetched.hi0, code, SeqState.next_mrmovl code]
  dsimp only [itype]
  rw [executes.fetched.ok1, executes.fetched.okc, validA,
    executes.related.registers.get_valid, (executes.fetched.ids needs).2,
    executes.fetched.cval constant, read]
  exact ⟨_, rfl, rfl, executes.fetched.ftpc, executes.setA needs _, executes.related.memory,
    code ▸ cc⟩

theorem opl (executes : Executes known σ s f) (code : σ.instruction.icode = .opl) :
    StepsTo known σ s f := by
  have needs : Yess.needRegids σ.instruction.icode = true := by rw [code]; rfl
  have valA : σ.operands.valA = σ.reg σ.instruction.rA := by
    simp [SeqState.operands, getSrcA, code]
  have valB : σ.operands.valB = σ.reg σ.instruction.rB := by
    simp [SeqState.operands, getSrcB, code]
  have result := computeAlu_eq σ.operands σ.CC
  have flags := (@sameCC_known_iff σ.operands (executes.defined code) σ.CC).mpr
    (executes.common.difference code)
  rw [valA, valB] at result flags
  unfold StepsTo switch
  rw [executes.fetched.hi0, code, SeqState.next_opl code]
  dsimp only [itype]
  rw [executes.fetched.ok1, executes.regA needs, executes.regB needs, executes.fetched.lo0]
  refine ⟨_, rfl, rfl, executes.fetched.ftpc, ?_, executes.related.memory, fun _ => flags⟩
  rw [← result]
  exact executes.setB needs _

theorem jxx (executes : Executes known σ s f) (code : σ.instruction.icode = .jxx) :
    StepsTo known σ s f := by
  have constant : needValC σ.instruction.icode = true := by rw [code]; rfl
  have taken := executes.related.condHolds (executes.common.condition (Or.inr code))
  have cc := executes.cc (by rw [code]; decide)
  unfold StepsTo switch
  rw [executes.fetched.hi0, code, SeqState.next_jxx code]
  dsimp only [itype]
  rw [executes.fetched.ok1, executes.fetched.okc, executes.fetched.lo0, taken,
    executes.fetched.cval constant, executes.fetched.ftpc]
  refine ⟨_, rfl, rfl, ?_, executes.related.registers, executes.related.memory, code ▸ cc⟩
  simp only [decide_eq_true_eq]

theorem call (executes : Executes known σ s f) (code : σ.instruction.icode = .call) :
    StepsTo known σ s f := by
  have constant : needValC σ.instruction.icode = true := by rw [code]; rfl
  have accepted := executes.accepted
  rw [SeqState.dataRejected_call code] at accepted
  have inside := executes.common.data (Or.inr (by rw [memWrite, SeqState.executed_icode, code]))
  rw [SeqState.address_call code] at inside
  obtain ⟨stored, isStored, len, memory⟩ := executes.related.memory.setWordVal accepted inside
  have cc := executes.cc (by rw [code]; decide)
  unfold StepsTo switch
  rw [executes.fetched.hi0, code, SeqState.next_call code]
  dsimp only [itype]
  rw [executes.fetched.ok1, executes.fetched.okc, executes.regEsp, executes.fetched.ftpc, isStored]
  exact ⟨_, rfl, len, executes.fetched.cval constant, executes.setEsp _, memory, code ▸ cc⟩

theorem ret (executes : Executes known σ s f) (code : σ.instruction.icode = .ret) :
    StepsTo known σ s f := by
  have accepted := executes.accepted
  rw [SeqState.dataRejected_ret code] at accepted
  have inside := executes.common.data (Or.inl (by rw [memRead, SeqState.executed_icode, code]))
  rw [SeqState.address_pop (Or.inl code)] at inside
  have read := executes.related.memory.getWordVal accepted inside
  have cc := executes.cc (by rw [code]; decide)
  unfold StepsTo switch
  rw [executes.fetched.hi0, code, SeqState.next_ret code]
  dsimp only [itype]
  rw [executes.regEsp, read]
  exact ⟨_, rfl, rfl, rfl, executes.setEsp _, executes.related.memory, code ▸ cc⟩

theorem pushl (executes : Executes known σ s f) (code : σ.instruction.icode = .pushl) :
    StepsTo known σ s f := by
  have needs : Yess.needRegids σ.instruction.icode = true := by rw [code]; rfl
  have validA := regValid_of_isRegister (executes.fetched.ids needs).1
    (executes.common.registers.rA (Or.inr (Or.inr (Or.inr (Or.inl code)))))
  have accepted := executes.accepted
  rw [SeqState.dataRejected_pushl code] at accepted
  have inside := executes.common.data (Or.inr (by rw [memWrite, SeqState.executed_icode, code]))
  rw [SeqState.address_pushl code] at inside
  obtain ⟨stored, isStored, len, memory⟩ := executes.related.memory.setWordVal accepted inside
  have cc := executes.cc (by rw [code]; decide)
  unfold StepsTo switch
  rw [executes.fetched.hi0, code, SeqState.next_pushl code]
  dsimp only [itype]
  rw [executes.fetched.ok1, validA, executes.regEsp, executes.regA needs, isStored]
  exact ⟨_, rfl, len, executes.fetched.ftpc, executes.setEsp _, memory, code ▸ cc⟩

theorem popl (executes : Executes known σ s f) (code : σ.instruction.icode = .popl) :
    StepsTo known σ s f := by
  have needs : Yess.needRegids σ.instruction.icode = true := by rw [code]; rfl
  have validA := regValid_of_isRegister (executes.fetched.ids needs).1
    (executes.common.registers.rA (Or.inr (Or.inr (Or.inr (Or.inr code)))))
  have accepted := executes.accepted
  rw [SeqState.dataRejected_popl code] at accepted
  have inside := executes.common.data (Or.inl (by rw [memRead, SeqState.executed_icode, code]))
  rw [SeqState.address_pop (Or.inr code)] at inside
  have read := executes.related.memory.getWordVal accepted inside
  have cc := executes.cc (by rw [code]; decide)
  unfold StepsTo switch
  rw [executes.fetched.hi0, code, SeqState.next_popl code]
  dsimp only [itype]
  rw [executes.fetched.ok1, validA, executes.regEsp, read]
  refine ⟨_, rfl, rfl, executes.fetched.ftpc, ?_, executes.related.memory, code ▸ cc⟩
  rw [← (executes.fetched.ids needs).1]
  exact (executes.setEsp _).set _ _

end Executes

/-- One instruction that both machines execute. -/
theorem Related.step {known : Prop} {σ : SeqState} {s : State} (related : Related known σ s)
    (common : Common known s.m.len σ) (running : ¬ σ.Stops) :
    ∃ next, stepState s = (next, .aok) ∧ next.m.len = s.m.len ∧
      Related (known ∨ σ.instruction.icode = .opl) σ.next next := by
  obtain ⟨-, valid, noHalt⟩ := SeqState.of_not_stops running
  obtain ⟨byte0, read, fetchedAs⟩ := fetchedAs related.memory valid common.noDump common.bytes
  have stepped : stepState s = switch s (fetched s.m σ.pc byte0) := by
    unfold stepState
    rw [related.pc, read]
  rw [stepped]
  have executes : Executes known σ s (fetched s.m σ.pc byte0) :=
    ⟨related, common, fetchedAs, running⟩
  change StepsTo known σ s _
  cases code : σ.instruction.icode with
  | halt => exact absurd code noHalt
  | nop => exact executes.nop code
  | rrmovl => exact executes.rrmovl code
  | irmovl => exact executes.irmovl code
  | rmmovl => exact executes.rmmovl code
  | mrmovl => exact executes.mrmovl code
  | opl => exact executes.opl code
  | jxx => exact executes.jxx code
  | call => exact executes.call code
  | ret => exact executes.ret code
  | pushl => exact executes.pushl code
  | popl => exact executes.popl code
  | dump => exact absurd code common.noDump
  | _ =>
      rw [code] at valid
      exact nomatch valid

end Yess.Isa
