import Yess.Processor

/-!
# Execute stage

`executeStage.c`: the arithmetic of an instruction, the condition codes and the
M register.  A `performX` function reads the E register; only `performOpl` also
writes, to the condition codes and to the status of E, so the table of function
pointers holds functions from E and the condition codes to their new values.
-/

namespace Yess

/-- Instruction functions of the arithmetic and logical instructions. -/
abbrev addl : Word := 0
abbrev subl : Word := 1
abbrev andl : Word := 2
abbrev xorl : Word := 3

/-- Instruction functions of the conditional moves, and of the jumps in the same order. -/
abbrev rrmovlf : Word := 0
abbrev cmovle : Word := 1
abbrev cmovl : Word := 2
abbrev cmove : Word := 3
abbrev cmovne : Word := 4
abbrev cmovge : Word := 5
abbrev cmovg : Word := 6

abbrev intMax : Int := 2147483647

abbrev intMin : Int := -2147483648

theorem toInt_bounds (value : Word) : intMin ≤ value.toInt ∧ value.toInt ≤ intMax :=
  ⟨BitVec.le_toInt value, Int.le_of_lt_add_one BitVec.toInt_lt⟩

/-- C's `!` on an `int`. -/
def lnot (value : Word) : Word := if value = 0 then 1 else 0

def condition (ifun sfBit zfBit ofBit : Word) : Word :=
  if ifun = rrmovlf then 1
  else if ifun = cmovle then if ((sfBit ^^^ ofBit) ||| zfBit) ≠ 0 then 1 else 0
  else if ifun = cmovl then if (sfBit ^^^ ofBit) ≠ 0 then 1 else 0
  else if ifun = cmove then if zfBit ≠ 0 then 1 else 0
  else if ifun = cmovne then if zfBit = 0 then 1 else 0
  else if ifun = cmovge then if (sfBit ^^^ ofBit) = 0 then 1 else 0
  else if ifun = cmovg then if (lnot (sfBit ^^^ ofBit) &&& lnot zfBit) ≠ 0 then 1 else 0
  else 0

theorem ite_zero_or_one (asked : Prop) [Decidable asked] {yes no : Word}
    (whenTrue : yes = 0 ∨ yes = 1) (whenFalse : no = 0 ∨ no = 1) :
    (if asked then yes else no) = 0 ∨ (if asked then yes else no) = 1 := by
  by_cases holds : asked
  · rwa [if_pos holds]
  · rwa [if_neg holds]

theorem condition_cases (ifun sfBit zfBit ofBit : Word) :
    condition ifun sfBit zfBit ofBit = 0 ∨ condition ifun sfBit zfBit ofBit = 1 := by
  have one : (1 : Word) = 0 ∨ (1 : Word) = 1 := Or.inr rfl
  have zero : (0 : Word) = 0 ∨ (0 : Word) = 1 := Or.inl rfl
  have test (asked : Prop) [Decidable asked] := ite_zero_or_one asked one zero
  unfold condition
  refine ite_zero_or_one _ one (ite_zero_or_one _ (test _) (ite_zero_or_one _ (test _) ?_))
  refine ite_zero_or_one _ (test _) (ite_zero_or_one _ (test _) ?_)
  exact ite_zero_or_one _ (test _) (ite_zero_or_one _ (test _) zero)

/-- `e_Cnd`: zero for every icode except `RRMOVL` and `JXX`. -/
def computeCnd (ereg : Eregister) (CC : Word) : Word :=
  if ereg.icode = .rrmovl ∨ ereg.icode = .jxx then
    condition ereg.ifun (getCC sf CC) (getCC zf CC) (getCC of CC)
  else 0

theorem computeCnd_cases (ereg : Eregister) (CC : Word) :
    computeCnd ereg CC = 0 ∨ computeCnd ereg CC = 1 := by
  unfold computeCnd
  split
  · exact condition_cases _ _ _ _
  · exact Or.inl rfl

/-! ## The functions behind `funcPtr` -/

def performZero (_E : Eregister) : Word := 0

def performRrmovl (E : Eregister) : Word := E.valA

def performIrmovl (E : Eregister) : Word := E.valC

def performRmmovl (E : Eregister) : Word := E.valB + E.valC

def performMrmovl (E : Eregister) : Word := E.valB + E.valC

def performDUMP (E : Eregister) : Word := E.valC

def performJXX (_E : Eregister) : Word := 0

def performCall (E : Eregister) : Word := E.valB - 4

def performRet (E : Eregister) : Word := E.valB + 4

def performPushl (E : Eregister) : Word := E.valB - 4

def performPopl (E : Eregister) : Word := E.valB + 4

/-- What a `performX` function leaves: `valE`, the E register and the condition codes. -/
structure Performed where
  valE : Word
  E : Eregister
  CC : Word

/-- The tests `result == 0` and `result < 0` that every operation of `performOpl` makes. -/
def setResultCC (result CC : Word) : Word :=
  let CC := if result = 0 then setCC zf 1 CC else CC
  if result.toInt < 0 then setCC sf 1 CC else CC

/-- The overflow test of `ADDL`.  The guards keep the differences inside an `int`. -/
def addOverflows (a b : Int) : Bool :=
  (a > 0 ∧ b > 0 ∧ a > intMax - b) ∨ (a < 0 ∧ b < 0 ∧ a < intMin - b)

/-- The overflow test of `SUBL`.  The guards keep the sums inside an `int`. -/
def subOverflows (a b : Int) : Bool :=
  (b < 0 ∧ a > 0 ∧ b < intMin + a) ∨ (b > 0 ∧ a < 0 ∧ b > intMax + a)

/-- `valB <OPL> valA`, with the condition codes.  Without `changeCC` nothing is
computed; an undefined function code clears the codes and turns the status of E
into `SINS`. -/
def performOpl (E : Eregister) (changeCC : Bool) (CC : Word) : Performed :=
  let a := E.valA.toInt
  let b := E.valB.toInt
  if !changeCC then ⟨0, E, CC⟩
  else if E.ifun = addl then
    let result := E.valB + E.valA
    let CC := setResultCC result clearCC
    ⟨result, E, if addOverflows a b then setCC of 1 CC else CC⟩
  else if E.ifun = subl then
    let result := E.valB - E.valA
    let CC := setResultCC result clearCC
    ⟨result, E, if subOverflows a b then setCC of 1 CC else CC⟩
  else if E.ifun = andl then
    let result := E.valB &&& E.valA
    ⟨result, E, setResultCC result clearCC⟩
  else if E.ifun = xorl then
    let result := E.valB ^^^ E.valA
    ⟨result, E, setResultCC result clearCC⟩
  else ⟨0, { E with stat := .sins }, clearCC⟩

/-- The table of function pointers, indexed by icode. -/
def funcPtr (icode : Icode) (E : Eregister) (changeCC : Bool) (CC : Word) : Performed :=
  match icode with
  | .halt => ⟨performZero E, E, CC⟩
  | .nop => ⟨performZero E, E, CC⟩
  | .rrmovl => ⟨performRrmovl E, E, CC⟩
  | .irmovl => ⟨performIrmovl E, E, CC⟩
  | .rmmovl => ⟨performRmmovl E, E, CC⟩
  | .mrmovl => ⟨performMrmovl E, E, CC⟩
  | .opl => performOpl E changeCC CC
  | .jxx => ⟨performJXX E, E, CC⟩
  | .call => ⟨performCall E, E, CC⟩
  | .ret => ⟨performRet E, E, CC⟩
  | .pushl => ⟨performPushl E, E, CC⟩
  | .popl => ⟨performPopl E, E, CC⟩
  | .dump => ⟨performDUMP E, E, CC⟩
  | .codeD | .codeE | .codeF => ⟨performZero E, E, CC⟩

/-! ## The stage -/

def bubbleM (fwd : ForwardType) : Bool :=
  (fwd.m_stat = .sadr || fwd.m_stat = .sins || fwd.m_stat = .shlt) ||
    (fwd.W_stat = .sadr || fwd.W_stat = .sins || fwd.W_stat = .shlt)

/-- The test on `m_stat` and `W_stat` that keeps an instruction from changing the CC. -/
def exceptionAhead (fwd : ForwardType) : Bool :=
  fwd.m_stat = .sins || fwd.m_stat = .sadr || fwd.m_stat = .shlt ||
    fwd.W_stat = .sins || fwd.W_stat = .sadr || fwd.W_stat = .shlt

/-- What the execution of the instruction in E gives: the values it computes, the
M register it becomes, and the new E register and condition codes. -/
structure Execution where
  M : Mregister
  E : Eregister
  CC : Word

/-- Run the function of the instruction in E, compute `Cnd`, and drop the
destination of a conditional move whose condition does not hold. -/
def execute (E : Eregister) (changeCC : Bool) (CC : Word) : Execution :=
  let performed := funcPtr E.icode E changeCC CC
  let e_Cnd := computeCnd performed.E performed.CC
  let dstE := if E.icode = .rrmovl ∧ e_Cnd = 0 then rNone else E.dstE
  { M := ⟨performed.E.stat, E.icode, e_Cnd, performed.valE, E.valA, dstE, E.dstM⟩
    E := performed.E
    CC := performed.CC }

/-- Only an `OPL` changes the condition codes, and only when nothing stops it. -/
theorem execute_CC (E : Eregister) (changeCC : Bool) (CC : Word) :
    (execute E changeCC CC).CC =
      if E.icode = .opl then (performOpl E changeCC CC).CC else CC := by
  unfold execute
  cases code : E.icode <;> rfl

theorem performOpl_blocked (E : Eregister) (CC : Word) : performOpl E false CC = ⟨0, E, CC⟩ := rfl

theorem undefined_iff (ifun : Word) :
    ifun.toNat > 3 ↔ ifun ≠ addl ∧ ifun ≠ subl ∧ ifun ≠ andl ∧ ifun ≠ xorl := by
  simp only [addl, subl, andl, xorl]
  bv_omega

theorem performOpl_stat (E : Eregister) (CC : Word) :
    (performOpl E true CC).E.stat = if E.ifun.toNat > 3 then .sins else E.stat := by
  unfold performOpl
  simp only [undefined_iff, Bool.not_true, Bool.false_eq_true, if_false]
  by_cases add : E.ifun = addl
  · simp [add]
  · by_cases sub : E.ifun = subl
    · simp [sub]
    · by_cases and : E.ifun = andl
      · simp [and]
      · by_cases xor : E.ifun = xorl
        · simp [xor]
        · simp only [add, sub, and, xor, ne_eq, not_false_eq_true, and_self, if_false, if_true]

theorem execute_stat (E : Eregister) (CC : Word) :
    (execute E true CC).M.stat =
      if E.icode = .opl ∧ E.ifun.toNat > 3 then .sins else E.stat := by
  unfold execute
  by_cases opl : E.icode = .opl
  · simp only [opl, true_and]
    exact performOpl_stat E CC
  · rw [if_neg (fun undefined => opl undefined.1)]
    cases code : E.icode <;> first | rfl | exact absurd code opl

def executeStage (s : State) : State :=
  let m_bubble := bubbleM s.forward || exceptionAhead s.forward
  let changeCC := !exceptionAhead s.forward
  let result := execute s.E changeCC s.CC
  { s with
    CC := result.CC
    E := result.E
    M := if m_bubble then clearMregister else result.M
    forward :=
      { s.forward with
        E_icode := s.E.icode
        e_Cnd := result.M.Cnd
        e_dstE := result.M.dstE
        e_valE := result.M.valE
        E_dstM := s.E.dstM } }

end Yess
