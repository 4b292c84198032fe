import Yess.ConditionCodes
import Yess.Isa.Step

/-!
# Condition codes of the two machines

`compute_cc` and `performOpl` find the flags of an operation in different ways, and
`cond_holds` and `computeCnd` read them in different ways.
-/

namespace Yess.Isa

/-- The two condition code registers hold the same three flags. -/
def SameCC (cc : BitVec 8) (CC : Word) : Prop :=
  ∃ zero negative overflow, cc = packCC zero negative overflow ∧
    CC = flags zero negative overflow

theorem packCC_injective {zero negative overflow zero' negative' overflow' : Bool}
    (same : packCC zero negative overflow = packCC zero' negative' overflow') :
    zero = zero' ∧ negative = negative' ∧ overflow = overflow' := by
  revert same zero negative overflow zero' negative' overflow'
  decide

theorem flags_injective {zero negative overflow zero' negative' overflow' : Bool}
    (same : flags zero negative overflow = flags zero' negative' overflow') :
    zero = zero' ∧ negative = negative' ∧ overflow = overflow' := by
  revert same zero negative overflow zero' negative' overflow'
  decide

theorem sameCC_iff {zero negative overflow zero' negative' overflow' : Bool} :
    SameCC (packCC zero negative overflow) (flags zero' negative' overflow') ↔
      zero = zero' ∧ negative = negative' ∧ overflow = overflow' := by
  constructor
  · rintro ⟨z, n, o, packed, flagged⟩
    obtain ⟨rfl, rfl, rfl⟩ := packCC_injective packed
    obtain ⟨rfl, rfl, rfl⟩ := flags_injective flagged
    exact ⟨rfl, rfl, rfl⟩
  · rintro ⟨rfl, rfl, rfl⟩
    exact ⟨_, _, _, rfl, rfl⟩

theorem SameCC.condHolds {cc : BitVec 8} {CC : Word} (same : SameCC cc CC) (ifun : Word) :
    condHolds cc ifun.toNat =
      decide (condition ifun (getCC sf CC) (getCC zf CC) (getCC of CC) = 1) := by
  obtain ⟨zero, negative, overflow, rfl, rfl⟩ := same
  rw [getCC_sf_flags, getCC_zf_flags, getCC_of_flags]
  have known : ∀ code < 7, ∀ zero negative overflow,
      Isa.condHolds (packCC zero negative overflow) code =
        decide (condition (BitVec.ofNat 32 code) (if negative then 1 else 0)
          (if zero then 1 else 0) (if overflow then 1 else 0) = 1) := by
    decide
  by_cases small : ifun.toNat < 7
  · have code := known ifun.toNat small zero negative overflow
    rwa [BitVec.ofNat_toNat, BitVec.setWidth_eq] at code
  · have other (code : Nat) (below : code < 7) : ifun ≠ BitVec.ofNat 32 code := by
      rintro rfl
      rw [BitVec.toNat_ofNat] at small
      omega
    have unknown : condition ifun (if negative then 1 else 0) (if zero then 1 else 0)
        (if overflow then 1 else 0) = 0 := by
      exact (if_neg (other 0 (by decide))).trans <| (if_neg (other 1 (by decide))).trans <|
        (if_neg (other 2 (by decide))).trans <| (if_neg (other 3 (by decide))).trans <|
        (if_neg (other 4 (by decide))).trans <| (if_neg (other 5 (by decide))).trans <|
        if_neg (other 6 (by decide))
    rw [unknown]
    unfold Isa.condHolds
    split
    any_goals omega
    rfl

theorem addOvf_eq (argA argB : Word) :
    (decide (argA.toInt < 0) = decide (argB.toInt < 0) &&
      decide ((argA + argB).toInt < 0) ≠ decide (argA.toInt < 0)) =
      addOverflows argA.toInt argB.toInt := by
  have boundsA := toInt_bounds argA
  have boundsB := toInt_bounds argB
  rw [Bool.eq_iff_iff, BitVec.toInt_add, Int.bmod_def]
  simp only [addOverflows, intMin, intMax, Bool.and_eq_true, decide_eq_true_eq, decide_eq_decide,
    ne_eq] at *
  split
  · omega
  · omega

/-- The difference of `argB` and `argA` overflows when the guards of the pipeline say so,
and for one pair of operands that the guards miss. -/
theorem subOvf_eq (argA argB : Word) :
    (decide (argA.toInt > 0) = decide (argB.toInt < 0) &&
      decide ((argB - argA).toInt < 0) ≠ decide (argB.toInt < 0)) =
      (subOverflows argA.toInt argB.toInt ||
        decide (argA.toInt = intMin ∧ argB.toInt = 0)) := by
  have boundsA := toInt_bounds argA
  have boundsB := toInt_bounds argB
  rw [Bool.eq_iff_iff, BitVec.toInt_sub, Int.bmod_def]
  simp only [subOverflows, intMin, intMax, Bool.and_eq_true, Bool.or_eq_true, decide_eq_true_eq,
    decide_eq_decide, ne_eq] at *
  split
  · omega
  · omega

theorem oplCode_cases (ifun : Word) :
    ifun = addl ∨ ifun = subl ∨ ifun = andl ∨ ifun = xorl ∨ ifun.toNat > 3 := by
  by_contra other
  simp only [not_or] at other
  obtain ⟨add, sub, and, xor, code⟩ := other
  exact code ((undefined_iff ifun).mpr ⟨add, sub, and, xor⟩)

theorem computeAlu_undefined {op : Nat} (undefined : op > 3) (argA argB : Word) :
    computeAlu op argA argB = 0 := by
  unfold computeAlu
  simp only [aAdd, aSub, aAnd, aXor]
  rw [if_neg (by omega), if_neg (by omega), if_neg (by omega), if_neg (by omega)]

theorem computeAlu_eq (E : Eregister) (CC : Word) :
    computeAlu E.ifun.toNat E.valA E.valB = (performOpl E true CC).valE := by
  unfold performOpl
  dsimp only
  rw [Bool.not_true, if_neg Bool.false_ne_true]
  rcases oplCode_cases E.ifun with code | code | code | code | code
  · rw [code, if_pos rfl]
    exact BitVec.add_comm _ _
  · rw [code, if_neg (by decide), if_pos rfl]
    rfl
  · rw [code, if_neg (by decide), if_neg (by decide), if_pos rfl]
    exact BitVec.and_comm _ _
  · rw [code, if_neg (by decide), if_neg (by decide), if_neg (by decide), if_pos rfl]
    exact BitVec.xor_comm _ _
  · obtain ⟨add, sub, and, xor⟩ := (undefined_iff E.ifun).mp code
    rw [computeAlu_undefined code, if_neg add, if_neg sub, if_neg and, if_neg xor]

/-- For an operation, the two machines leave the same condition codes but for zero minus
`INT_MIN`. -/
theorem sameCC_known_iff {E : Eregister} (known : E.ifun.toNat ≤ 3) (CC : Word) :
    SameCC (computeCC E.ifun.toNat E.valA E.valB) (performOpl E true CC).CC ↔
      ¬ (E.ifun = subl ∧ E.valA.toInt = intMin ∧ E.valB.toInt = 0) := by
  rw [performOpl_CC]
  unfold oplFlags
  dsimp only
  rcases oplCode_cases E.ifun with code | code | code | code | code
  · have packed : computeCC E.ifun.toNat E.valA E.valB =
        packCC (E.valA + E.valB = 0) ((E.valA + E.valB).toInt < 0)
          (addOverflows E.valA.toInt E.valB.toInt) := by
      rw [← addOvf_eq, code]
      rfl
    rw [packed, code, if_pos rfl, sameCC_iff, BitVec.add_comm E.valA]
    exact iff_of_true ⟨rfl, rfl, rfl⟩ fun corner => absurd corner.1 (by decide)
  · have packed : computeCC E.ifun.toNat E.valA E.valB =
        packCC (E.valB - E.valA = 0) ((E.valB - E.valA).toInt < 0)
          (subOverflows E.valA.toInt E.valB.toInt ||
            decide (E.valA.toInt = intMin ∧ E.valB.toInt = 0)) := by
      rw [← subOvf_eq, code]
      rfl
    rw [packed, code, if_neg (by decide), if_pos rfl, sameCC_iff]
    have missed (corner : E.valA.toInt = intMin ∧ E.valB.toInt = 0) :
        subOverflows E.valA.toInt E.valB.toInt = false := by
      rw [corner.1, corner.2]
      decide
    rw [and_iff_right rfl, and_iff_right rfl, and_iff_right rfl]
    by_cases corner : E.valA.toInt = intMin ∧ E.valB.toInt = 0
    · rw [missed corner, decide_eq_true corner]
      exact iff_of_false (by decide) (not_not.mpr corner)
    · rw [decide_eq_false corner, Bool.or_false]
      exact iff_of_true rfl corner
  · have packed : computeCC E.ifun.toNat E.valA E.valB =
        packCC (E.valA &&& E.valB = 0) ((E.valA &&& E.valB).toInt < 0) false := by
      rw [code]
      rfl
    rw [packed, code, if_neg (by decide), if_neg (by decide), if_pos rfl, sameCC_iff,
      BitVec.and_comm E.valA]
    exact iff_of_true ⟨rfl, rfl, rfl⟩ fun corner => absurd corner.1 (by decide)
  · have packed : computeCC E.ifun.toNat E.valA E.valB =
        packCC (E.valA ^^^ E.valB = 0) ((E.valA ^^^ E.valB).toInt < 0) false := by
      rw [code]
      rfl
    rw [packed, code, if_neg (by decide), if_neg (by decide), if_neg (by decide), if_pos rfl,
      sameCC_iff, BitVec.xor_comm E.valA]
    exact iff_of_true ⟨rfl, rfl, rfl⟩ fun corner => absurd corner.1 (by decide)
  · exact absurd known (Nat.not_le.mpr code)

/-- The two machines leave the same condition codes, for all operands and function
codes, exactly when the function code names an operation and the operation is not zero
minus `INT_MIN`. -/
theorem sameCC_opl_iff (E : Eregister) (CC : Word) :
    SameCC (computeCC E.ifun.toNat E.valA E.valB) (performOpl E true CC).CC ↔
      E.ifun.toNat ≤ 3 ∧ ¬ (E.ifun = subl ∧ E.valA.toInt = intMin ∧ E.valB.toInt = 0) := by
  by_cases known : E.ifun.toNat ≤ 3
  · rw [sameCC_known_iff known, and_iff_right known]
  · have code := Nat.lt_of_not_le known
    obtain ⟨add, sub, and, xor⟩ := (undefined_iff E.ifun).mp code
    have packed : computeCC E.ifun.toNat E.valA E.valB = packCC true false false := by
      unfold computeCC
      dsimp only
      rw [computeAlu_undefined code, if_neg (by simp only [aAdd]; omega),
        if_neg (by simp only [aSub]; omega)]
      rfl
    rw [performOpl_CC]
    unfold oplFlags
    dsimp only
    rw [packed, if_neg add, if_neg sub, if_neg and, if_neg xor, sameCC_iff]
    exact iff_of_false (fun same => absurd same.1 (by decide)) fun both => known both.1

end Yess.Isa
