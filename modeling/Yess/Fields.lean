import Yess.MainLoop
import Yess.ConditionCodes

/-!
# Fields of the pipeline registers

Register ids and function codes are read from nibbles, and every stage only hands
them on.  So in every reachable machine they are nibbles still, and the condition
codes are three flags.
-/

namespace Yess

def Nibble (value : Int) : Prop := 0 ≤ value ∧ value < 16

instance (value : Int) : Decidable (Nibble value) := inferInstanceAs (Decidable (_ ∧ _))

/-- The fields of D that hold nibbles do. -/
structure Dregister.Small (D : Dregister) : Prop where
  ifun : D.ifun.toNat < 16
  rA : Nibble D.rA
  rB : Nibble D.rB

/-- The fields of E that hold nibbles do. -/
structure Eregister.Small (E : Eregister) : Prop where
  ifun : E.ifun.toNat < 16
  dstE : Nibble E.dstE
  dstM : Nibble E.dstM
  srcA : Nibble E.srcA
  srcB : Nibble E.srcB

/-- The fields of M that hold nibbles do, and `Cnd` is a bit. -/
structure Mregister.Small (M : Mregister) : Prop where
  Cnd : M.Cnd = 0 ∨ M.Cnd = 1
  dstE : Nibble M.dstE
  dstM : Nibble M.dstM

/-- The fields of W that hold nibbles do. -/
structure Wregister.Small (W : Wregister) : Prop where
  dstE : Nibble W.dstE
  dstM : Nibble W.dstM

/-- The machine holds nibbles where it should, and three flags. -/
structure SmallFields (s : State) : Prop where
  CC : ∃ zero negative overflow, s.CC = flags zero negative overflow
  D : s.D.Small
  E : s.E.Small
  M : s.M.Small
  W : s.W.Small

theorem clearDregister_small : clearDregister.Small := ⟨by decide, by decide, by decide⟩

theorem clearEregister_small : clearEregister.Small :=
  ⟨by decide, by decide, by decide, by decide, by decide⟩

theorem clearMregister_small : clearMregister.Small := ⟨Or.inl rfl, by decide, by decide⟩

theorem clearWregister_small : clearWregister.Small := ⟨by decide, by decide⟩

theorem smallFields_setupyess (u : Undetermined) (memory : Memory) :
    SmallFields (setupyess u memory) :=
  ⟨⟨false, false, false, rfl⟩, clearDregister_small, clearEregister_small, clearMregister_small,
    clearWregister_small⟩

/-! ## One lemma for each stage -/

theorem getBits_lt {low : Nat} (inside : low + 3 ≤ 31) (source : Word) :
    (getBits low (low + 3 : Nat) source).toNat < 16 := by
  rw [getBits_eq (Nat.le_add_right low 3) inside, BitVec.toNat_ushiftRight,
    Nat.shiftRight_eq_div_pow, show low + (31 - (low + 3)) = 28 by omega]
  exact Nat.div_lt_of_lt_mul (BitVec.isLt _)

theorem getIfun_lt (memByte : Byte) (memError : Bool) : (getIfun memByte memError).toNat < 16 := by
  unfold getIfun
  cases memError with
  | true => exact Nat.zero_lt_succ 15
  | false => exact @getBits_lt 0 (by decide) _

theorem getReg_nibble (memByte : Byte) (memError : Bool) :
    Nibble (getRegA memByte memError) ∧ Nibble (getRegB memByte memError) := by
  have none : Nibble rNone := by decide
  unfold getRegA getRegB
  cases memError with
  | true => exact ⟨none, none⟩
  | false =>
      exact ⟨⟨Int.natCast_nonneg _, Int.ofNat_lt.mpr (@getBits_lt 4 (by decide) _)⟩,
        ⟨Int.natCast_nonneg _, Int.ofNat_lt.mpr (@getBits_lt 0 (by decide) _)⟩⟩

theorem fetchInstruction_small (memory : Memory) (pc : Word) :
    (fetchInstruction memory pc).Small := by
  have none : Nibble rNone := by decide
  have ifun := getIfun_lt (getByte memory pc.toInt).1 (getByte memory pc.toInt).2
  have ids := getReg_nibble (getByte memory (pc + 1).toInt).1 (getByte memory (pc + 1).toInt).2
  unfold fetchInstruction
  dsimp only
  split
  · exact ⟨ifun, none, none⟩
  · split
    · exact ⟨ifun, none, none⟩
    · refine ⟨ifun, ?_, ?_⟩
      · dsimp only
        split
        · exact ids.1
        · exact none
      · dsimp only
        split
        · exact ids.2
        · exact none

/-- The ids that decode reads off an instruction are ids of the instruction, or fixed ones. -/
theorem Dregister.Small.ids {D : Dregister} (small : D.Small) :
    Nibble (getSrcA D) ∧ Nibble (getSrcB D) ∧ Nibble (getDstE D) ∧ Nibble (getDstM D) := by
  have none : Nibble rNone := by decide
  have stack : Nibble rEsp := by decide
  unfold getSrcA getSrcB getDstE getDstM
  cases D.icode <;>
    simp only [none, stack, small.rA, small.rB, reduceCtorEq, or_self, or_true, true_or, if_true,
      if_false, and_self]

theorem Eregister.Small.execute {E : Eregister} (small : E.Small) (changeCC : Bool) (CC : Word) :
    (execute E changeCC CC).M.Small := by
  refine ⟨computeCnd_cases _ _, ?_, small.dstM⟩
  change Nibble (if _ then rNone else E.dstE)
  split
  · decide
  · exact small.dstE

theorem execute_E (E : Eregister) (changeCC : Bool) (CC : Word) :
    ∃ stat, (execute E changeCC CC).E = { E with stat := stat } := by
  have opl : ∃ stat, (performOpl E changeCC CC).E = { E with stat := stat } := by
    unfold performOpl
    dsimp only
    split_ifs
    any_goals exact ⟨E.stat, rfl⟩
    exact ⟨.sins, rfl⟩
  have performed (icode : Icode) :
      ∃ stat, (funcPtr icode E changeCC CC).E = { E with stat := stat } := by
    cases icode with
    | opl => exact opl
    | _ => exact ⟨E.stat, rfl⟩
  exact performed E.icode

theorem execute_flags {E : Eregister} {changeCC : Bool} {CC : Word}
    (found : ∃ zero negative overflow, CC = flags zero negative overflow) :
    ∃ zero negative overflow, (execute E changeCC CC).CC = flags zero negative overflow := by
  rw [execute_CC]
  split
  · cases changeCC with
    | false => exact found
    | true =>
        rw [performOpl_CC]
        unfold oplFlags
        dsimp only
        split_ifs
        · exact ⟨_, _, _, rfl⟩
        · exact ⟨_, _, _, rfl⟩
        · exact ⟨_, _, _, rfl⟩
        · exact ⟨_, _, _, rfl⟩
        · exact ⟨_, _, _, rfl⟩
  · exact found

namespace SmallFields

variable {s : State}

theorem writebackStage (small : SmallFields s) : SmallFields (writebackStage s).state := by
  obtain ⟨registers, forward, frame⟩ := writebackStage_frame s
  rw [frame]
  exact ⟨small.CC, small.D, small.E, small.M, small.W⟩

theorem memoryStage (small : SmallFields s) : SmallFields (memoryStage s) := by
  refine ⟨small.CC, small.D, small.E, small.M, ?_⟩
  change Wregister.Small (if _ then s.W else _)
  split
  · exact small.W
  · exact ⟨small.M.dstE, small.M.dstM⟩

theorem executeStage (small : SmallFields s) : SmallFields (executeStage s) := by
  refine ⟨execute_flags small.CC, small.D, ?_, ?_, small.W⟩
  · obtain ⟨stat, same⟩ := execute_E s.E (!exceptionAhead s.forward) s.CC
    change Eregister.Small (execute s.E (!exceptionAhead s.forward) s.CC).E
    rw [same]
    exact ⟨small.E.ifun, small.E.dstE, small.E.dstM, small.E.srcA, small.E.srcB⟩
  · change Mregister.Small (if _ then clearMregister else _)
    split
    · exact clearMregister_small
    · exact small.E.execute _ _

theorem decodeStage (small : SmallFields s) : SmallFields (decodeStage s) := by
  obtain ⟨srcA, srcB, dstE, dstM⟩ := small.D.ids
  refine ⟨small.CC, small.D, ?_, small.M, small.W⟩
  change Eregister.Small (if _ then clearEregister else _)
  split
  · exact clearEregister_small
  · exact ⟨small.D.ifun, dstE, dstM, srcA, srcB⟩

theorem fetchStage (small : SmallFields s) : SmallFields (fetchStage s) := by
  refine ⟨small.CC, ?_, small.E, small.M, small.W⟩
  change Dregister.Small (if _ then clearDregister else if _ then _ else s.D)
  split
  · exact clearDregister_small
  · split
    · exact fetchInstruction_small _ _
    · exact small.D

theorem cycle (small : SmallFields s) : SmallFields (cycle s) :=
  small.writebackStage.memoryStage.executeStage.decodeStage.fetchStage

theorem iterate (small : SmallFields s) (count : Nat) : SmallFields (Yess.cycle^[count] s) := by
  induction count with
  | zero => exact small
  | succ count ih =>
      rw [Function.iterate_succ_apply']
      exact ih.cycle

end SmallFields

end Yess
