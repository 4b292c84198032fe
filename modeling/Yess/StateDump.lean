import Yess.DumpReader
import Yess.Fields
import Yess.Lib.Printf

/-!
# Dumping the registers

`dump.c`: the text of the program registers and of the processor registers.  Each
number has a column of its own, wide enough in every reachable machine, so that the
dump of a state decides everything it shows.
-/

namespace Yess

open Lib.CString Lib.Printf

abbrev rEax : Rregister := 0
abbrev rEcx : Rregister := 1
abbrev rEdx : Rregister := 2
abbrev rEbx : Rregister := 3
abbrev rEbp : Rregister := 5
abbrev rEsi : Rregister := 6
abbrev rEdi : Rregister := 7

def Icode.code : Icode → Nat
  | .halt => 0x0
  | .nop => 0x1
  | .rrmovl => 0x2
  | .irmovl => 0x3
  | .rmmovl => 0x4
  | .mrmovl => 0x5
  | .opl => 0x6
  | .jxx => 0x7
  | .call => 0x8
  | .ret => 0x9
  | .pushl => 0xA
  | .popl => 0xB
  | .dump => 0xC
  | .codeD => 0xD
  | .codeE => 0xE
  | .codeF => 0xF

def Stat.code : Stat → Nat
  | .saok => 1
  | .shlt => 2
  | .sadr => 3
  | .sins => 4

/-- A register id, as the `unsigned int` that `%x` prints. -/
def regNumber (reg : Rregister) : Nat := (BitVec.ofInt 32 reg).toNat

/-- The calls of `printf` that print the program registers. -/
def programRegisterLines (registers : Registers) : List (String × List Nat) :=
  let reg (id : Rregister) : Nat := (getRegister registers id).toNat
  [("%%eax: %08x %%ecx: %08x %%edx: %08x %%ebx: %08x\n",
      [reg rEax, reg rEcx, reg rEdx, reg rEbx]),
    ("%%esp: %08x %%ebp: %08x %%esi: %08x %%edi: %08x\n\n",
      [reg rEsp, reg rEbp, reg rEsi, reg rEdi])]

def dumpProgramRegisters (registers : Registers) : Text :=
  printLines (programRegisterLines registers)

def processorRegisterLines (s : State) : List (String × List Nat) :=
  [("CC - ZF: %01x SF: %01x OF: %01x\n",
      [(getCC zf s.CC).toNat, (getCC sf s.CC).toNat, (getCC of s.CC).toNat]),
    ("F - predPC: %08x\n", [s.F.predPC.toNat]),
    ("D - stat: %01x icode: %01x ifun: %01x rA: %01x rB: %01x valC: %08x  valP: %08x\n",
      [s.D.stat.code, s.D.icode.code, s.D.ifun.toNat, regNumber s.D.rA, regNumber s.D.rB,
        s.D.valC.toNat, s.D.valP.toNat]),
    ("E - stat: %01x icode: %01x ifun: %01x valC: %08x valA: %08x valB: %08x\n",
      [s.E.stat.code, s.E.icode.code, s.E.ifun.toNat, s.E.valC.toNat, s.E.valA.toNat,
        s.E.valB.toNat]),
    ("    dstE: %01x dstM: %01x srcA: %01x srcB: %01x\n",
      [regNumber s.E.dstE, regNumber s.E.dstM, regNumber s.E.srcA, regNumber s.E.srcB]),
    ("M - stat: %01x icode: %01x Cnd: %01x valE: %08x valA: %08x dstE: %01x dstM: %01x\n",
      [s.M.stat.code, s.M.icode.code, s.M.Cnd.toNat, s.M.valE.toNat, s.M.valA.toNat,
        regNumber s.M.dstE, regNumber s.M.dstM]),
    ("W - stat: %01x icode: %01x valE: %08x valM: %08x dstE: %01x dstM: %01x\n\n",
      [s.W.stat.code, s.W.icode.code, s.W.valE.toNat, s.W.valM.toNat, regNumber s.W.dstE,
        regNumber s.W.dstM])]

def dumpProcessorRegisters (s : State) : Text := printLines (processorRegisterLines s)

/-- The three dumps of a state, one after another. -/
def dumpState (s : State) : Text :=
  dumpProgramRegisters s.registers ++ (dumpProcessorRegisters s ++ dumpMemory s.memory)

/-! ## The numbers fit their columns -/

theorem Icode.code_lt (icode : Icode) : icode.code < 16 ^ 1 := by cases icode <;> decide

theorem Icode.code_injective {icode other : Icode} (same : icode.code = other.code) :
    icode = other := by
  cases icode <;> cases other <;> first | rfl | exact nomatch same

theorem Stat.code_lt (stat : Stat) : stat.code < 16 ^ 1 := by cases stat <;> decide

theorem Stat.code_injective {stat other : Stat} (same : stat.code = other.code) :
    stat = other := by
  cases stat <;> cases other <;> first | rfl | exact nomatch same

theorem Nibble.regNumber_eq {reg : Rregister} (nibble : Nibble reg) :
    (regNumber reg : Int) = reg := by
  obtain ⟨lower, upper⟩ := nibble
  unfold regNumber
  rw [BitVec.toNat_ofInt]
  omega

theorem Nibble.regNumber_lt {reg : Rregister} (nibble : Nibble reg) :
    regNumber reg < 16 ^ 1 := by
  have same := nibble.regNumber_eq
  have upper := nibble.2
  omega

theorem Nibble.regNumber_injective {reg other : Rregister} (nibble : Nibble reg)
    (otherNibble : Nibble other) (same : regNumber reg = regNumber other) : reg = other := by
  rw [← nibble.regNumber_eq, ← otherNibble.regNumber_eq, same]

theorem word_lt (value : Word) : value.toNat < 16 ^ 8 := value.isLt

theorem programRegisterLines_fit (registers : Registers) :
    ∀ line ∈ programRegisterLines registers, Fits (directives line.1.toList) line.2 := by
  have four (a b c d : Word) :
      List.Forall₂ (fun width number => number < 16 ^ width) [8, 8, 8, 8]
        [a.toNat, b.toNat, c.toNat, d.toNat] := by
    simp only [List.forall₂_cons, List.Forall₂.nil, and_true]
    exact ⟨word_lt a, word_lt b, word_lt c, word_lt d⟩
  unfold programRegisterLines
  simp only [List.forall_mem_cons, List.not_mem_nil, false_imp_iff, implies_true, and_true]
  constructor
  · exact ⟨[8, 8, 8, 8], by decide +kernel, four _ _ _ _⟩
  · exact ⟨[8, 8, 8, 8], by decide +kernel, four _ _ _ _⟩

theorem getCC_lt {CC : Word} {zero negative overflow : Bool}
    (isFlags : CC = flags zero negative overflow) :
    (getCC zf CC).toNat < 16 ^ 1 ∧ (getCC sf CC).toNat < 16 ^ 1 ∧ (getCC of CC).toNat < 16 ^ 1 := by
  rw [isFlags]
  cases zero <;> cases negative <;> cases overflow <;> decide

theorem flags_of_getCC {CC other : Word}
    (isFlags : ∃ zero negative overflow, CC = flags zero negative overflow)
    (otherIsFlags : ∃ zero negative overflow, other = flags zero negative overflow)
    (zero : getCC zf CC = getCC zf other) (negative : getCC sf CC = getCC sf other)
    (overflow : getCC of CC = getCC of other) : CC = other := by
  obtain ⟨z, n, o, rfl⟩ := isFlags
  obtain ⟨z', n', o', rfl⟩ := otherIsFlags
  rw [getCC_zf_flags, getCC_zf_flags] at zero
  rw [getCC_sf_flags, getCC_sf_flags] at negative
  rw [getCC_of_flags, getCC_of_flags] at overflow
  revert zero negative overflow
  cases z <;> cases z' <;> cases n <;> cases n' <;> cases o <;> cases o' <;> decide

theorem processorRegisterLines_fit {s : State} (small : SmallFields s) :
    ∀ line ∈ processorRegisterLines s, Fits (directives line.1.toList) line.2 := by
  obtain ⟨zero, negative, overflow, isFlags⟩ := small.CC
  obtain ⟨zeroFits, negativeFits, overflowFits⟩ := getCC_lt isFlags
  have CndFits : s.M.Cnd.toNat < 16 ^ 1 := by
    rcases small.M.Cnd with Cnd | Cnd
    · rw [Cnd]
      decide
    · rw [Cnd]
      decide
  unfold processorRegisterLines
  simp only [List.forall_mem_cons, List.not_mem_nil, false_imp_iff, implies_true, and_true]
  refine ⟨⟨[1, 1, 1], by decide +kernel, ?_⟩, ⟨[8], by decide +kernel, ?_⟩,
    ⟨[1, 1, 1, 1, 1, 8, 8], by decide +kernel, ?_⟩, ⟨[1, 1, 1, 8, 8, 8], by decide +kernel, ?_⟩,
    ⟨[1, 1, 1, 1], by decide +kernel, ?_⟩, ⟨[1, 1, 1, 8, 8, 1, 1], by decide +kernel, ?_⟩,
    ⟨[1, 1, 8, 8, 1, 1], by decide +kernel, ?_⟩⟩ <;>
    simp only [List.forall₂_cons, List.Forall₂.nil, and_true]
  · exact ⟨zeroFits, negativeFits, overflowFits⟩
  · exact word_lt _
  · exact ⟨s.D.stat.code_lt, s.D.icode.code_lt, small.D.ifun, small.D.rA.regNumber_lt,
      small.D.rB.regNumber_lt, word_lt _, word_lt _⟩
  · exact ⟨s.E.stat.code_lt, s.E.icode.code_lt, small.E.ifun, word_lt _, word_lt _, word_lt _⟩
  · exact ⟨small.E.dstE.regNumber_lt, small.E.dstM.regNumber_lt, small.E.srcA.regNumber_lt,
      small.E.srcB.regNumber_lt⟩
  · exact ⟨s.M.stat.code_lt, s.M.icode.code_lt, CndFits, word_lt _, word_lt _,
      small.M.dstE.regNumber_lt, small.M.dstM.regNumber_lt⟩
  · exact ⟨s.W.stat.code_lt, s.W.icode.code_lt, word_lt _, word_lt _,
      small.W.dstE.regNumber_lt, small.W.dstM.regNumber_lt⟩

/-- After any number of cycles of any program: the fields that are dumped in one column
are nibbles, and each number of the dump is printed in exactly the width of its column. -/
theorem processorRegisters_fill (u : Undetermined) (memory : Memory) (count : Nat) :
    SmallFields (cycle^[count] (setupyess u memory)) ∧
      ∀ line ∈ processorRegisterLines (cycle^[count] (setupyess u memory)),
        Fits (directives line.1.toList) line.2 ∧ Fills (directives line.1.toList) line.2 := by
  have small := (smallFields_setupyess u memory).iterate count
  refine ⟨small, fun line member => ?_⟩
  have fits := processorRegisterLines_fit small line member
  exact ⟨fits, fits.fills⟩

/-! ## The dump of a state decides the state -/

/-- Two machines agree in everything that a dump shows. -/
structure SameDumped (s other : State) : Prop where
  registers : ∀ reg, IsRegister reg → s.registers reg = other.registers reg
  CC : s.CC = other.CC
  F : s.F = other.F
  D : s.D = other.D
  E : s.E = other.E
  M : s.M = other.M
  W : s.W = other.W
  memory : s.memory = other.memory

theorem registers_of_lines {registers other : Registers}
    (same : programRegisterLines registers = programRegisterLines other) {reg : Rregister}
    (isRegister : IsRegister reg) : registers reg = other reg := by
  have cells (id : Rregister) (inside : IsRegister id)
      (numbers : (getRegister registers id).toNat = (getRegister other id).toNat) :
      registers id = other id := by
    rw [getRegister_of_isRegister inside, getRegister_of_isRegister inside] at numbers
    exact BitVec.eq_of_toNat_eq numbers
  unfold programRegisterLines at same
  simp only [List.cons.injEq, Prod.mk.injEq, true_and, and_true] at same
  obtain ⟨⟨eax, ecx, edx, ebx⟩, esp, ebp, esi, edi⟩ := same
  obtain ⟨lower, upper⟩ := isRegister
  interval_cases reg
  · exact cells rEax (by decide) eax
  · exact cells rEcx (by decide) ecx
  · exact cells rEdx (by decide) edx
  · exact cells rEbx (by decide) ebx
  · exact cells rEsp (by decide) esp
  · exact cells rEbp (by decide) ebp
  · exact cells rEsi (by decide) esi
  · exact cells rEdi (by decide) edi

theorem processorRegisters_of_lines {s other : State} (small : SmallFields s)
    (otherSmall : SmallFields other)
    (same : processorRegisterLines s = processorRegisterLines other) :
    s.CC = other.CC ∧ s.F = other.F ∧ s.D = other.D ∧ s.E = other.E ∧ s.M = other.M ∧
      s.W = other.W := by
  have word {value value' : Word} (numbers : value.toNat = value'.toNat) : value = value' :=
    BitVec.eq_of_toNat_eq numbers
  unfold processorRegisterLines at same
  simp only [List.cons.injEq, Prod.mk.injEq, true_and, and_true] at same
  obtain ⟨⟨zero, negative, overflow⟩, predPC,
    ⟨statD, icodeD, ifunD, rA, rB, valCD, valP⟩, ⟨statE, icodeE, ifunE, valCE, valAE, valBE⟩,
    ⟨dstEE, dstME, srcA, srcB⟩, ⟨statM, icodeM, Cnd, valEM, valAM, dstEM, dstMM⟩,
    statW, icodeW, valEW, valMW, dstEW, dstMW⟩ := same
  refine ⟨flags_of_getCC small.CC otherSmall.CC (word zero) (word negative) (word overflow),
    ?_, ?_, ?_, ?_, ?_⟩
  · exact congrArg Fregister.mk (word predPC)
  · exact Dregister.ext (Stat.code_injective statD) (Icode.code_injective icodeD) (word ifunD)
      (small.D.rA.regNumber_injective otherSmall.D.rA rA)
      (small.D.rB.regNumber_injective otherSmall.D.rB rB) (word valCD) (word valP)
  · exact Eregister.ext (Stat.code_injective statE) (Icode.code_injective icodeE) (word ifunE)
      (word valCE) (word valAE) (word valBE)
      (small.E.dstE.regNumber_injective otherSmall.E.dstE dstEE)
      (small.E.dstM.regNumber_injective otherSmall.E.dstM dstME)
      (small.E.srcA.regNumber_injective otherSmall.E.srcA srcA)
      (small.E.srcB.regNumber_injective otherSmall.E.srcB srcB)
  · exact Mregister.ext (Stat.code_injective statM) (Icode.code_injective icodeM) (word Cnd)
      (word valEM) (word valAM) (small.M.dstE.regNumber_injective otherSmall.M.dstE dstEM)
      (small.M.dstM.regNumber_injective otherSmall.M.dstM dstMM)
  · exact Wregister.ext (Stat.code_injective statW) (Icode.code_injective icodeW) (word valEW)
      (word valMW) (small.W.dstE.regNumber_injective otherSmall.W.dstE dstEW)
      (small.W.dstM.regNumber_injective otherSmall.W.dstM dstMW)

/-- The three dumps of a state, printed one after another without a separator, decide
every number that they show. -/
theorem sameDumped_of_dumpState {s other : State} (small : SmallFields s)
    (otherSmall : SmallFields other) (same : dumpState s = dumpState other) :
    SameDumped s other := by
  have programFormats : (programRegisterLines s.registers).map Prod.fst =
      (programRegisterLines other.registers).map Prod.fst := by
    simp only [programRegisterLines, List.map_cons, List.map_nil]
  have processorFormats : (processorRegisterLines s).map Prod.fst =
      (processorRegisterLines other).map Prod.fst := by
    simp only [processorRegisterLines, List.map_cons, List.map_nil]
  have printed : printLines (programRegisterLines s.registers) ++
        (printLines (processorRegisterLines s) ++ dumpMemory s.memory) =
      printLines (programRegisterLines other.registers) ++
        (printLines (processorRegisterLines other) ++ dumpMemory other.memory) := same
  obtain ⟨programRegisters, behind⟩ := printLines_append_inj programFormats
    (programRegisterLines_fit s.registers) (programRegisterLines_fit other.registers) printed
  obtain ⟨processorRegisters, memory⟩ := printLines_append_inj processorFormats
    (processorRegisterLines_fit small) (processorRegisterLines_fit otherSmall) behind
  obtain ⟨CC, F, D, E, M, W⟩ := processorRegisters_of_lines small otherSmall processorRegisters
  have words (image : Memory) : expandDump (dumpMemory image) = some (List.ofFn image) :=
    @expandDump_dumpMem image 8 2047 (by decide) rfl
  refine ⟨fun reg isRegister => registers_of_lines programRegisters isRegister, CC, F, D, E, M, W,
    ?_⟩
  exact List.ofFn_injective (Option.some.inj (by rw [← words, memory, words]))

theorem dumpState_of_sameDumped {s other : State} (same : SameDumped s other) :
    dumpState s = dumpState other := by
  have cells (reg : Rregister) (inside : IsRegister reg) :
      getRegister s.registers reg = getRegister other.registers reg := by
    rw [getRegister_of_isRegister inside, getRegister_of_isRegister inside,
      same.registers reg inside]
  have programRegisters : programRegisterLines s.registers =
      programRegisterLines other.registers := by
    unfold programRegisterLines
    dsimp only
    rw [cells rEax (by decide), cells rEcx (by decide), cells rEdx (by decide),
      cells rEbx (by decide), cells rEsp (by decide), cells rEbp (by decide),
      cells rEsi (by decide), cells rEdi (by decide)]
  have processorRegisters : processorRegisterLines s = processorRegisterLines other := by
    unfold processorRegisterLines
    rw [same.CC, same.F, same.D, same.E, same.M, same.W]
  rw [dumpState, dumpProgramRegisters, dumpProcessorRegisters, programRegisters,
    processorRegisters, same.memory]
  rfl

/-- Whatever two programs do and whatever the C source leaves undetermined: two machines
that they reach print the same state exactly when they agree in the eight registers, the
condition codes, all five pipeline registers and the whole memory. -/
theorem dumpState_eq_iff_sameDumped (u u' : Undetermined) (memory memory' : Memory)
    (count count' : Nat) :
    dumpState (cycle^[count] (setupyess u memory)) =
        dumpState (cycle^[count'] (setupyess u' memory')) ↔
      SameDumped (cycle^[count] (setupyess u memory))
        (cycle^[count'] (setupyess u' memory')) :=
  ⟨sameDumped_of_dumpState ((smallFields_setupyess u memory).iterate count)
    ((smallFields_setupyess u' memory').iterate count'), dumpState_of_sameDumped⟩

end Yess
