import Yess.ExecuteStage

/-!
# Condition codes

What `performOpl` leaves in the condition codes, as three flags, and what
`computeCnd` then says of two operands that `SUBL` has compared.
-/

namespace Yess

/-- The condition code register that holds the given `ZF`, `SF` and `OF`. -/
def flags (zero negative overflow : Bool) : Word :=
  (if zero then 4 else 0) ||| (if negative then 2 else 0) ||| (if overflow then 1 else 0)

@[simp] theorem getCC_zf_flags (zero negative overflow : Bool) :
    getCC zf (flags zero negative overflow) = if zero then 1 else 0 := by
  cases zero <;> cases negative <;> cases overflow <;> decide

@[simp] theorem getCC_sf_flags (zero negative overflow : Bool) :
    getCC sf (flags zero negative overflow) = if negative then 1 else 0 := by
  cases zero <;> cases negative <;> cases overflow <;> decide

@[simp] theorem getCC_of_flags (zero negative overflow : Bool) :
    getCC of (flags zero negative overflow) = if overflow then 1 else 0 := by
  cases zero <;> cases negative <;> cases overflow <;> decide

/-- The flags an `OPL` calls for: zero and negative from its result, overflow from
the guards of the source; an undefined function code calls for none. -/
def oplFlags (E : Eregister) : Word :=
  let flagged (result : Word) (overflow : Bool) : Word :=
    flags (result = 0) (result.toInt < 0) overflow
  if E.ifun = addl then
    flagged (E.valB + E.valA) (addOverflows E.valA.toInt E.valB.toInt)
  else if E.ifun = subl then
    flagged (E.valB - E.valA) (subOverflows E.valA.toInt E.valB.toInt)
  else if E.ifun = andl then flagged (E.valB &&& E.valA) false
  else if E.ifun = xorl then flagged (E.valB ^^^ E.valA) false
  else flags false false false

theorem setResultCC_flags (result : Word) (overflow : Bool) :
    (if overflow then setCC of 1 (setResultCC result clearCC) else setResultCC result clearCC) =
      flags (result = 0) (result.toInt < 0) overflow := by
  unfold setResultCC
  by_cases zero : result = 0 <;> by_cases negative : result.toInt < 0 <;>
    simp only [zero, negative, if_true, if_false, decide_true, decide_false] <;>
    cases overflow <;> decide

theorem performOpl_CC (E : Eregister) (CC : Word) : (performOpl E true CC).CC = oplFlags E := by
  unfold performOpl oplFlags
  simp only [Bool.not_true, Bool.false_eq_true, if_false]
  split
  · exact setResultCC_flags _ _
  · split
    · exact setResultCC_flags _ _
    · split
      · exact setResultCC_flags _ false
      · split
        · exact setResultCC_flags _ false
        · rfl

/-! ## Comparing two words through `SUBL` -/

def DifferenceFits (valA valB : Word) : Prop :=
  intMin ≤ valB.toInt - valA.toInt ∧ valB.toInt - valA.toInt ≤ intMax

/-- With the codes `CC`, a jump or a conditional move with this function code is
taken exactly when `holds`. -/
def Decides (CC ifun : Word) (holds : Prop) : Prop :=
  ∀ E : Eregister, E.icode = .jxx ∨ E.icode = .rrmovl → E.ifun = ifun →
    (computeCnd E CC = 1 ↔ holds)

/-- The codes `CC` decide every condition as the signed order of `valB` and `valA`
does, and `OF` says whether their difference fits. -/
structure SignedComparison (CC valA valB : Word) : Prop where
  le : Decides CC cmovle (valB.toInt ≤ valA.toInt)
  l : Decides CC cmovl (valB.toInt < valA.toInt)
  e : Decides CC cmove (valB.toInt = valA.toInt)
  ne : Decides CC cmovne (valB.toInt ≠ valA.toInt)
  ge : Decides CC cmovge (valB.toInt ≥ valA.toInt)
  g : Decides CC cmovg (valB.toInt > valA.toInt)
  overflow : getCC of CC = 1 ↔ ¬ DifferenceFits valA valB

theorem decides_flags {ifun : Word} {zero negative overflow : Bool} {holds : Prop}
    (decided : condition ifun (if negative then 1 else 0) (if zero then 1 else 0)
      (if overflow then 1 else 0) = 1 ↔ holds) :
    Decides (flags zero negative overflow) ifun holds := by
  rintro E conditional rfl
  unfold computeCnd
  rw [if_pos conditional.symm, getCC_zf_flags, getCC_sf_flags, getCC_of_flags]
  exact decided

/-- When the overflow flag is right for an exact result that wraps around at most once,
the exclusive or of `SF` and `OF` is the sign of the exact result. -/
theorem bmod_negative_ne_iff {exact : Int} {overflow : Bool}
    (lower : 2 * intMin ≤ exact) (upper : exact ≤ 2 * intMax + 1)
    (right : overflow = true ↔ ¬ (intMin ≤ exact ∧ exact ≤ intMax)) :
    (decide (exact.bmod (2 ^ 32) < 0) ≠ overflow) ↔ exact < 0 := by
  simp only [intMin, intMax] at lower upper right
  rw [Ne, ← Bool.coe_iff_coe, decide_eq_true_eq, right, Int.bmod_def]
  split
  · omega
  · omega

theorem sub_eq_zero_iff_toInt (valA valB : Word) :
    valB - valA = 0 ↔ valB.toInt = valA.toInt := by
  rw [BitVec.toInt_inj]
  exact sub_eq_zero

/-- The guards for overflow miss one pair of operands: a zero minus `INT_MIN`. -/
theorem subOverflows_iff (valA valB : Word) :
    (subOverflows valA.toInt valB.toInt = true ↔ ¬ DifferenceFits valA valB) ↔
      ¬ (valA.toInt = intMin ∧ valB.toInt = 0) := by
  have boundsA := toInt_bounds valA
  have boundsB := toInt_bounds valB
  simp only [subOverflows, DifferenceFits, decide_eq_true_eq, intMin, intMax] at *
  omega

/-- When the overflow flag is right, the exclusive or of `SF` and `OF` is the signed order. -/
theorem negative_ne_overflow_iff {valA valB : Word}
    (right : subOverflows valA.toInt valB.toInt = true ↔ ¬ DifferenceFits valA valB) :
    (decide ((valB - valA).toInt < 0) ≠ subOverflows valA.toInt valB.toInt) ↔
      valB.toInt < valA.toInt := by
  have boundsA := toInt_bounds valA
  have boundsB := toInt_bounds valB
  rw [BitVec.toInt_sub]
  refine (bmod_negative_ne_iff ?_ ?_ right).trans sub_neg
  · simp only [intMin, intMax] at *
    omega
  · simp only [intMin, intMax] at *
    omega

theorem condition_flags (zero negative overflow : Bool) :
    let decided (ifun : Word) : Prop :=
      condition ifun (if negative then 1 else 0) (if zero then 1 else 0)
        (if overflow then 1 else 0) = 1
    (decided cmovle ↔ negative ≠ overflow ∨ zero = true) ∧
      (decided cmovl ↔ negative ≠ overflow) ∧
      (decided cmove ↔ zero = true) ∧
      (decided cmovne ↔ ¬ zero = true) ∧
      (decided cmovge ↔ ¬ negative ≠ overflow) ∧
      (decided cmovg ↔ ¬ negative ≠ overflow ∧ ¬ zero = true) := by
  cases zero <;> cases negative <;> cases overflow <;> decide

theorem signedComparison_flags {zero negative overflow : Bool} {valA valB : Word}
    (equal : zero = true ↔ valB.toInt = valA.toInt)
    (less : negative ≠ overflow ↔ valB.toInt < valA.toInt)
    (right : overflow = true ↔ ¬ DifferenceFits valA valB) :
    SignedComparison (flags zero negative overflow) valA valB := by
  obtain ⟨le, l, e, ne, ge, g⟩ := condition_flags zero negative overflow
  have notLess : ¬ negative ≠ overflow ↔ valB.toInt ≥ valA.toInt :=
    (not_congr less).trans Int.not_lt
  refine ⟨decides_flags (le.trans ?_), decides_flags (l.trans less),
    decides_flags (e.trans equal), decides_flags (ne.trans (not_congr equal)),
    decides_flags (ge.trans notLess), decides_flags (g.trans ?_), ?_⟩
  · exact (or_congr less equal).trans Int.le_iff_lt_or_eq.symm
  · rw [notLess, equal]
    omega
  · rw [getCC_of_flags, ← right]
    cases overflow <;> decide

/-- For every pair of operands: the codes that `SUBL` leaves compare them as signed
integers if and only if the operation is not a zero minus `INT_MIN`. -/
theorem subl_signedComparison_iff (E : Eregister) (CC : Word) :
    SignedComparison (performOpl { E with ifun := subl } true CC).CC E.valA E.valB ↔
      ¬ (E.valA.toInt = intMin ∧ E.valB.toInt = 0) := by
  rw [performOpl_CC, ← subOverflows_iff]
  constructor
  · intro comparison
    have overflow := comparison.overflow
    change getCC of (flags _ _ (subOverflows E.valA.toInt E.valB.toInt)) = 1 ↔ _ at overflow
    rw [getCC_of_flags] at overflow
    rw [← overflow]
    cases subOverflows E.valA.toInt E.valB.toInt <;> decide
  · intro right
    refine signedComparison_flags ?_ (negative_ne_overflow_iff right) right
    rw [decide_eq_true_eq]
    exact sub_eq_zero_iff_toInt E.valA E.valB

/-- Zero minus `INT_MIN`: the jump if less is taken although zero is the greater. -/
theorem subl_signedComparison_intMin :
    ¬ SignedComparison
      (performOpl { clearEregister with ifun := subl, valA := 0x80000000, valB := 0 } true 0).CC
      0x80000000 0 := by
  intro comparison
  have taken := comparison.l { clearEregister with icode := .jxx, ifun := cmovl } (Or.inl rfl) rfl
  revert taken
  decide

/-! ## The flags of `ADDL`, `ANDL` and `XORL` -/

def SumFits (valA valB : Word) : Prop :=
  intMin ≤ valB.toInt + valA.toInt ∧ valB.toInt + valA.toInt ≤ intMax

/-- What `performOpl` is to leave: `result`, the three flags of it, and codes under
which "less" is `negative` and "greater or equal" its opposite. -/
structure OplOutcome (performed : Performed) (result : Word) (overflow negative : Prop) :
    Prop where
  valE : performed.valE = result
  zero : getCC zf performed.CC = 1 ↔ result = 0
  sign : getCC sf performed.CC = 1 ↔ result.getLsbD 31 = true
  overflow : getCC of performed.CC = 1 ↔ overflow
  l : Decides performed.CC cmovl negative
  ge : Decides performed.CC cmovge (¬ negative)

theorem addOverflows_iff (valA valB : Word) :
    addOverflows valA.toInt valB.toInt = true ↔ ¬ SumFits valA valB := by
  have boundsA := toInt_bounds valA
  have boundsB := toInt_bounds valB
  simp only [addOverflows, SumFits, decide_eq_true_eq, intMin, intMax] at *
  omega

theorem negative_ne_addOverflows_iff (valA valB : Word) :
    (decide ((valB + valA).toInt < 0) ≠ addOverflows valA.toInt valB.toInt) ↔
      valB.toInt + valA.toInt < 0 := by
  have boundsA := toInt_bounds valA
  have boundsB := toInt_bounds valB
  rw [BitVec.toInt_add]
  refine bmod_negative_ne_iff ?_ ?_ (addOverflows_iff valA valB)
  · simp only [intMin, intMax] at *
    omega
  · simp only [intMin, intMax] at *
    omega

theorem toInt_neg_iff_bit (value : Word) : value.toInt < 0 ↔ value.getLsbD 31 = true := by
  rw [← BitVec.msb_eq_getLsbD_last, BitVec.msb_eq_toInt, decide_eq_true_eq]

/-- An operation that leaves the flags of its result has the outcome they describe. -/
theorem oplOutcome_flags {performed : Performed} {result : Word} {overflows : Bool}
    {overflow negative : Prop} (valE : performed.valE = result)
    (CC : performed.CC = flags (result = 0) (result.toInt < 0) overflows)
    (right : overflows = true ↔ overflow)
    (less : decide (result.toInt < 0) ≠ overflows ↔ negative) :
    OplOutcome performed result overflow negative := by
  obtain ⟨-, l, -, -, ge, -⟩ :=
    condition_flags (result = 0) (result.toInt < 0) overflows
  have one (flag : Bool) : ((if flag then 1 else 0 : Word) = 1) ↔ flag = true := by
    cases flag <;> decide
  constructor
  · exact valE
  · rw [CC, getCC_zf_flags, one, decide_eq_true_eq]
  · rw [CC, getCC_sf_flags, one, decide_eq_true_eq]
    exact toInt_neg_iff_bit result
  · rw [CC, getCC_of_flags, one]
    exact right
  · rw [CC]
    exact decides_flags (l.trans less)
  · rw [CC]
    exact decides_flags (ge.trans (not_congr less))

theorem negative_ne_false_iff (result : Word) :
    decide (result.toInt < 0) ≠ false ↔ result.toInt < 0 := by
  rw [Bool.ne_false_iff, decide_eq_true_eq]

/-- For every pair of operands and whatever the codes were: `ADDL`, `ANDL` and
`XORL` return their result and leave its flags, and under these `ADDL` is less than
zero exactly when the unbounded sum is. -/
theorem opl_outcome (E : Eregister) (CC : Word) :
    OplOutcome (performOpl { E with ifun := addl } true CC)
        (BitVec.ofNat 32 (E.valB.toNat + E.valA.toNat)) (¬ SumFits E.valA E.valB)
        (E.valB.toInt + E.valA.toInt < 0) ∧
      OplOutcome (performOpl { E with ifun := andl } true CC) (E.valB &&& E.valA) False
        ((E.valB &&& E.valA).toInt < 0) ∧
      OplOutcome (performOpl { E with ifun := xorl } true CC) (E.valB ^^^ E.valA) False
        ((E.valB ^^^ E.valA).toInt < 0) := by
  refine ⟨?_, ?_, ?_⟩
  · rw [BitVec.ofNat_add, BitVec.ofNat_toNat, BitVec.ofNat_toNat, BitVec.setWidth_eq,
      BitVec.setWidth_eq]
    exact oplOutcome_flags rfl (performOpl_CC _ CC) (addOverflows_iff E.valA E.valB)
      (negative_ne_addOverflows_iff E.valA E.valB)
  · exact oplOutcome_flags rfl (performOpl_CC _ CC) Bool.false_eq_true.to_iff
      (negative_ne_false_iff _)
  · exact oplOutcome_flags rfl (performOpl_CC _ CC) Bool.false_eq_true.to_iff
      (negative_ne_false_iff _)

end Yess
