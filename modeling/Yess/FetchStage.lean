import Yess.DecodeStage

/-!
# Fetch stage

`fetchStage.c`: choose a PC, decode the instruction there byte by byte, and
update the F and D registers under the stall and bubble conditions.
-/

namespace Yess

/-- The source of the PC: the fall-through address of a mispredicted branch, the
return address of a `RET`, or the prediction. -/
def selectPC (fwd : ForwardType) (freg : Fregister) : Word :=
  if fwd.M_icode = .jxx ∧ fwd.M_Cnd = 0 then fwd.M_valA
  else if fwd.W_icode = .ret then fwd.W_valM
  else freg.predPC

def predictPC (icode : Icode) (valC valP : Word) : Word :=
  if icode = .jxx ∨ icode = .call then valC else valP

def pcIncrement (f_pc : Word) (icode : Icode) : Word :=
  match icode with
  | .halt | .nop | .ret => f_pc + 1
  | .opl | .rrmovl | .popl | .pushl => f_pc + 2
  | .dump | .jxx | .call => f_pc + 5
  | .irmovl | .rmmovl | .mrmovl => f_pc + 6
  | _ => f_pc + 1

/-- The instruction code, or a NOP for a memory error. -/
def getIcode (memByte : Byte) (memError : Bool) : Icode :=
  if memError then .nop else Icode.ofCode (getBits 4 7 (memByte.setWidth 32)).toNat

def getIfun (memByte : Byte) (memError : Bool) : Word :=
  if memError then fNone else getBits 0 3 (memByte.setWidth 32)

def getRegA (memByte : Byte) (memError : Bool) : Rregister :=
  if memError then rNone else (getBits 4 7 (memByte.setWidth 32)).toNat

def getRegB (memByte : Byte) (memError : Bool) : Rregister :=
  if memError then rNone else (getBits 0 3 (memByte.setWidth 32)).toNat

def instructionValid (icode : Icode) : Bool :=
  match icode with
  | .halt | .nop | .rrmovl | .irmovl | .rmmovl | .mrmovl | .opl | .jxx | .call | .ret | .pushl
  | .popl | .dump => true
  | _ => false

def needRegids (icode : Icode) : Bool :=
  match icode with
  | .rrmovl | .irmovl | .rmmovl | .mrmovl | .opl | .pushl | .popl => true
  | _ => false

def needValC (icode : Icode) : Bool :=
  match icode with
  | .irmovl | .rmmovl | .mrmovl | .jxx | .call | .dump => true
  | _ => false

/-- The constant word behind `f_pc`, or `0` and an error at the first byte that
cannot be read. -/
def getValC (memory : Memory) (f_pc : Word) : Word × Bool :=
  let byte0 := getByte memory (f_pc + 1).toInt
  if byte0.2 then (0, true)
  else
    let byte1 := getByte memory (f_pc + 2).toInt
    if byte1.2 then (0, true)
    else
      let byte2 := getByte memory (f_pc + 3).toInt
      if byte2.2 then (0, true)
      else
        let byte3 := getByte memory (f_pc + 4).toInt
        if byte3.2 then (0, true)
        else (buildWord byte0.1 byte1.1 byte2.1 byte3.1, false)

/-- The contents of D for the instruction at `f_pc`: the body of `fetchStage`
between `selectPC` and the update of the registers.  For an invalid icode the
source also increments `F.predPC`, which the update then overwrites. -/
def fetchInstruction (memory : Memory) (f_pc : Word) : Dregister :=
  let first := getByte memory f_pc.toInt
  let icode := getIcode first.1 first.2
  let ifun := getIfun first.1 first.2
  let valP := pcIncrement f_pc icode
  if first.2 then ⟨.sadr, icode, ifun, rNone, rNone, 0, valP⟩
  else if !instructionValid icode then ⟨.sins, icode, ifun, rNone, rNone, 0, valP⟩
  else
    let stat := if icode = .halt then .shlt else .saok
    let regByte := getByte memory (f_pc + 1).toInt
    let stat := if needRegids icode ∧ regByte.2 then .sadr else stat
    let rA := if needRegids icode then getRegA regByte.1 regByte.2 else rNone
    let rB := if needRegids icode then getRegB regByte.1 regByte.2 else rNone
    let tempPC := if needRegids icode then f_pc + 1 else f_pc
    let constant := if needValC icode then getValC memory tempPC else (0, false)
    let stat := if constant.2 then .sadr else stat
    ⟨stat, icode, ifun, rA, rB, constant.1, valP⟩

def stallF (fwd : ForwardType) : Bool :=
  ((fwd.E_icode = .mrmovl || fwd.E_icode = .popl) &&
    (fwd.E_dstM = fwd.d_srcA || fwd.E_dstM = fwd.d_srcB)) ||
    (fwd.D_icode = .ret || fwd.E_icode = .ret || fwd.M_icode = .ret)

def stallD (fwd : ForwardType) : Bool :=
  (fwd.E_icode = .mrmovl || fwd.E_icode = .popl) &&
    (fwd.E_dstM = fwd.d_srcA || fwd.E_dstM = fwd.d_srcB)

def bubbleD (fwd : ForwardType) : Bool :=
  (fwd.E_icode = .jxx && fwd.e_Cnd = 0) ||
    (!stallD fwd && (fwd.D_icode = .ret || fwd.E_icode = .ret || fwd.M_icode = .ret))

def fetchStage (s : State) : State :=
  let f_pc := selectPC s.forward s.F
  let fetched := fetchInstruction s.memory f_pc
  { s with
    F := ⟨if stallF s.forward then f_pc else predictPC fetched.icode fetched.valC fetched.valP⟩
    D := if bubbleD s.forward then clearDregister
      else if !stallD s.forward then fetched
      else s.D }

/-! ## What an instruction depends on -/

def instructionLength (icode : Icode) : Nat :=
  1 + (if needRegids icode then 1 else 0) + (if needValC icode then 4 else 0)

theorem getValC_congr {first second : Memory} {pc : Word}
    (same : ∀ offset : Nat, 1 ≤ offset → offset ≤ 4 →
      getByte first (pc + BitVec.ofNat 32 offset).toInt =
        getByte second (pc + BitVec.ofNat 32 offset).toInt) :
    getValC first pc = getValC second pc := by
  have byte1 := same 1 (by decide) (by decide)
  have byte2 := same 2 (by decide) (by decide)
  have byte3 := same 3 (by decide) (by decide)
  have byte4 := same 4 (by decide) (by decide)
  unfold getValC
  rw [show (1 : Word) = BitVec.ofNat 32 1 by rfl, show (2 : Word) = BitVec.ofNat 32 2 by rfl,
    show (3 : Word) = BitVec.ofNat 32 3 by rfl, show (4 : Word) = BitVec.ofNat 32 4 by rfl,
    byte1, byte2, byte3, byte4]

theorem fetchInstruction_icode (memory : Memory) (pc : Word) :
    (fetchInstruction memory pc).icode =
      getIcode (getByte memory pc.toInt).1 (getByte memory pc.toInt).2 := by
  unfold fetchInstruction
  simp only
  split
  · rfl
  · split <;> rfl

/-- A fetched instruction depends on its own bytes only. -/
theorem fetchInstruction_congr {first second : Memory} {pc : Word}
    (same : ∀ offset : Nat, offset < instructionLength (fetchInstruction second pc).icode →
      getByte first (pc + BitVec.ofNat 32 offset).toInt =
        getByte second (pc + BitVec.ofNat 32 offset).toInt) :
    fetchInstruction first pc = fetchInstruction second pc := by
  rw [fetchInstruction_icode] at same
  have firstByte : getByte first pc.toInt = getByte second pc.toInt := by
    simpa using same 0 (by unfold instructionLength; omega)
  unfold fetchInstruction
  dsimp only
  rw [firstByte]
  generalize getIcode (getByte second pc.toInt).1 (getByte second pc.toInt).2 = icode at *
  have registerByte : needRegids icode = true →
      getByte first (pc + 1).toInt = getByte second (pc + 1).toInt := by
    intro needs
    exact same 1 (by simp only [instructionLength, needs, if_true]; omega)
  have constant : needValC icode = true →
      getValC first (if needRegids icode then pc + 1 else pc) =
        getValC second (if needRegids icode then pc + 1 else pc) := by
    intro needs
    refine getValC_congr fun offset lower upper => ?_
    by_cases regids : needRegids icode
    · have byte := same (1 + offset)
        (by simp only [instructionLength, needs, regids, if_true]; omega)
      rw [BitVec.ofNat_add, ← BitVec.add_assoc] at byte
      simpa [regids] using byte
    · have byte := same offset (by simp [instructionLength, needs, regids]; omega)
      simpa [regids] using byte
  by_cases regids : needRegids icode = true
  · by_cases valC : needValC icode = true
    · rw [constant valC, registerByte regids]
    · simp only [valC, registerByte regids, Bool.false_eq_true, if_false]
  · by_cases valC : needValC icode = true
    · rw [constant valC]
      simp only [regids, Bool.false_eq_true, false_and, if_false]
    · simp only [regids, valC, Bool.false_eq_true, false_and, if_false]

theorem getValC_readable {memory : Memory} {pc : Word}
    (readable : ∀ offset : Nat, 1 ≤ offset → offset ≤ 4 →
      (getByte memory (pc + BitVec.ofNat 32 offset).toInt).2 = false) :
    (getValC memory pc).2 = false := by
  have byte1 := readable 1 (by decide) (by decide)
  have byte2 := readable 2 (by decide) (by decide)
  have byte3 := readable 3 (by decide) (by decide)
  have byte4 := readable 4 (by decide) (by decide)
  unfold getValC
  simp only [BitVec.ofNat_eq_ofNat] at *
  simp only [byte1, byte2, byte3, byte4, Bool.false_eq_true, if_false]

theorem fetchInstruction_stat {memory : Memory} {pc : Word}
    (readable : ∀ offset : Nat, offset < instructionLength (fetchInstruction memory pc).icode →
      (getByte memory (pc + BitVec.ofNat 32 offset).toInt).2 = false) :
    (fetchInstruction memory pc).stat =
      if !instructionValid (fetchInstruction memory pc).icode then .sins
      else if (fetchInstruction memory pc).icode = .halt then .shlt
      else .saok := by
  rw [fetchInstruction_icode] at readable ⊢
  have firstByte : (getByte memory pc.toInt).2 = false := by
    simpa using readable 0 (by unfold instructionLength; omega)
  unfold fetchInstruction
  dsimp only
  rw [firstByte] at readable ⊢
  generalize getIcode (getByte memory pc.toInt).1 false = icode at *
  have registerByte : ¬ (needRegids icode = true ∧ (getByte memory (pc + 1).toInt).2 = true) := by
    rintro ⟨needs, error⟩
    have byte := readable 1 (by simp only [instructionLength, needs, if_true]; omega)
    exact absurd error (by rw [show (1 : Word) = BitVec.ofNat 32 1 by rfl, byte]; decide)
  have constant :
      (if needValC icode then getValC memory (if needRegids icode then pc + 1 else pc)
        else (0, false)).2 = false := by
    split
    · case isTrue needs =>
        refine getValC_readable fun offset lower upper => ?_
        split
        · case isTrue regids =>
            have byte := readable (1 + offset)
              (by simp only [instructionLength, needs, regids, if_true]; omega)
            rwa [BitVec.ofNat_add, ← BitVec.add_assoc] at byte
        · exact readable offset (by simp only [instructionLength, needs, if_true]; omega)
    · rfl
  rw [constant, if_neg registerByte]
  cases valid : instructionValid icode <;> simp

end Yess
