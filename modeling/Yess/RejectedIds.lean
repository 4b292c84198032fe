import Yess.Forwarding
import Yess.Exceptions

/-!
# Operands that name no register

The register byte of an instruction can hold the ids 8 to 14, which name none of the
eight registers.  `getRegister` is to return zero for them, but decode compares ids
before it asks, and finds what an instruction ahead is about to write to the id; and
the id 8 passes the range check, to whatever object lies behind `registers[]`.
-/

namespace Yess

open Lib.Iteration Lib.Writes

def Rejected (reg : Rregister) : Prop := 8 ≤ reg ∧ reg ≤ 14

instance (reg : Rregister) : Decidable (Rejected reg) := inferInstanceAs (Decidable (_ ∧ _))

theorem not_rejected_rNone : ¬ Rejected rNone := by decide

theorem ne_rNone_of_rejected {reg : Rregister} (rejected : Rejected reg) : reg ≠ rNone := by
  rintro rfl
  exact not_rejected_rNone rejected

/-- The operands that decode has handed to E are zero where their id is rejected. -/
structure ReadsZero (E : Eregister) : Prop where
  valA : Rejected E.srcA → E.valA = 0
  valB : Rejected E.srcB → E.valB = 0

/-! ## What the instructions ahead are about to write -/

/-- The writes of the instruction ahead of M.  In a cycle that write-back stops, the
fields of `forward` still hold those of the cycle before. -/
def oldestWrites (s : State) : List (Rregister × Word) :=
  if s.W.stat = .saok then s.W.writes
  else [(s.forward.W_dstE, s.forward.W_valE), (s.forward.W_dstM, s.forward.W_valM)]

/-- The writes that the instructions ahead of the one in D are about to make when a
cycle starts, in program order. -/
def aheadWrites (s : State) : List (Rregister × Word) :=
  oldestWrites s ++ [(s.M.dstE, s.M.valE), (s.M.dstM, s.access.valM),
    (s.execution.M.dstE, s.execution.M.valE)]

/-- The ids of the operands that decode hands to E, unless the instruction in E is a
mispredicted branch or loads one of them. -/
def handedOver (s : State) : List Rregister :=
  if bubbleE s.forwarded then [] else [getSrcA s.D, getSrcB s.D]

/-- Decode hands over the word behind the registers: an operand of the id 8 to which
nothing ahead writes. -/
def TakesPastEnd (s : State) : Prop :=
  regSize ∈ handedOver s ∧ lastWrite regSize (aheadWrites s) = none

/-- Decode hands over an operand of a rejected id for which the last of the writes
ahead has a value other than zero. -/
def DirtyRead (s : State) : Prop :=
  ∃ reg value, reg ∈ handedOver s ∧ Rejected reg ∧ lastWrite reg (aheadWrites s) = some value ∧
    value ≠ 0

/-! ## The writes that `forward` offers -/

/-- In the cycle that write-back stops, `forward` has the fields of W from the cycle
before, and all others from this one. -/
theorem beforeFetch_forward_stopping {s : State} (stopping : Stopping s) (settled : Settled s) :
    (beforeFetch s).forward =
      { s.forwarded with
        W_icode := s.forward.W_icode
        W_dstE := s.forward.W_dstE
        W_valE := s.forward.W_valE
        W_dstM := s.forward.W_dstM
        W_valM := s.forward.W_valM } := by
  have noStall : Stat.saok.exceptional = false := rfl
  rw [beforeFetch, beforeDecode_stopping stopping]
  simp only [decodeStage, executeStage, memoryStage, exceptionAhead_eq, settled.stale, noStall,
    Bool.or_false]
  rfl

theorem running_or_settled {u : Undetermined} {memory : Memory} {count : Nat}
    (runs : Runs (setupyess u memory) count) :
    (cycle^[count] (setupyess u memory)).W.stat = .saok ∨
      Settled (cycle^[count] (setupyess u memory)) := by
  cases count with
  | zero => exact Or.inl rfl
  | succ count => exact Or.inr (settled_of_runs runs)

section

variable {s : State} (reached : s.W.stat = .saok ∨ Settled s)
include reached

theorem bubbleE_beforeFetch : bubbleE (beforeFetch s).forward = bubbleE s.forwarded := by
  by_cases running : s.W.stat = .saok
  · rw [beforeFetch_forward running]
  · rw [beforeFetch_forward_stopping running (reached.resolve_left running)]
    rfl

theorem beforeDecode_writes_eq : (beforeDecode s).forward.writes = aheadWrites s := by
  change (beforeFetch s).forward.writes = _
  by_cases running : s.W.stat = .saok
  · rw [beforeFetch_forward running, aheadWrites, oldestWrites, if_pos running]
    rfl
  · rw [beforeFetch_forward_stopping running (reached.resolve_left running), aheadWrites,
      oldestWrites, if_neg running]
    rfl

end

/-! ## What a read of a rejected id finds -/

theorem getRegister_of_rejected {reg : Rregister} (rejected : Rejected reg)
    (other : reg ≠ regSize) (registers : Registers) : getRegister registers reg = 0 := by
  unfold getRegister getRegisterIndex
  rw [if_pos (Or.inr (lt_of_le_of_ne rejected.1 (Ne.symm other)))]

/-- Where the word behind the registers is not taken, decode reads the last of the
writes ahead, or zero. -/
theorem forwardB_of_rejected {s : State} (reached : s.W.stat = .saok ∨ Settled s)
    {reg : Rregister} (rejected : Rejected reg)
    (inside : reg = regSize → lastWrite reg (aheadWrites s) ≠ none) :
    forwardB (beforeDecode s).registers reg (beforeDecode s).forward =
      (lastWrite reg (aheadWrites s)).getD 0 := by
  rw [forwardB_eq_lastWrite _ (ne_rNone_of_rejected rejected), beforeDecode_writes_eq reached]
  cases last : lastWrite reg (aheadWrites s) with
  | some value => rfl
  | none =>
      have other : reg ≠ regSize := fun eight => inside eight last
      exact getRegister_of_rejected rejected other _

/-! ## What decode hands to E -/

theorem operandA_of_rejected {s : State} (rejected : Rejected (getSrcA s.D)) :
    operandA s = forwardB s.registers (getSrcA s.D) s.forward := by
  rw [operandA, selectFwdA_eq, if_neg]
  rintro (call | jxx)
  · rw [getSrcA, call] at rejected
    exact not_rejected_rNone rejected
  · rw [getSrcA, jxx] at rejected
    exact not_rejected_rNone rejected

/-- The operands of a cycle are zero where their ids are rejected, when each rejected id
that decode hands over reads as zero. -/
theorem readsZero_cycle_iff {s : State} (reached : s.W.stat = .saok ∨ Settled s) :
    ReadsZero (cycle s).E ↔ ∀ reg ∈ handedOver s, Rejected reg →
      forwardB (beforeDecode s).registers reg (beforeDecode s).forward = 0 := by
  rw [cycle_E_eq, handedOver, bubbleE_beforeFetch reached]
  cases bubbleE s.forwarded with
  | true =>
      refine iff_of_true ⟨?_, ?_⟩ (fun _ member => absurd member List.not_mem_nil)
      · exact fun rejected => absurd rejected not_rejected_rNone
      · exact fun rejected => absurd rejected not_rejected_rNone
  | false =>
      have valA (rejected : Rejected (getSrcA s.D)) :
          operandA (beforeDecode s) =
            forwardB (beforeDecode s).registers (getSrcA s.D) (beforeDecode s).forward := by
        rw [← beforeDecode_D s] at rejected
        rw [operandA_of_rejected rejected, beforeDecode_D]
      have valB : operandB (beforeDecode s) =
          forwardB (beforeDecode s).registers (getSrcB s.D) (beforeDecode s).forward := by
        rw [operandB, beforeDecode_D]
      constructor
      · rintro ⟨zeroA, zeroB⟩ reg member rejected
        rcases List.mem_pair.mp member with rfl | rfl
        · exact (valA rejected).symm.trans (zeroA rejected)
        · exact valB.symm.trans (zeroB rejected)
      · intro zero
        constructor
        · exact fun rejected => (valA rejected).trans
            (zero _ (List.mem_pair.mpr (Or.inl rfl)) rejected)
        · exact fun rejected => valB.trans (zero _ (List.mem_pair.mpr (Or.inr rfl)) rejected)

/-- One cycle of a run, unless it takes the word behind the registers: the operands that
decode hands over are zero where their ids are rejected, if and only if the read is
not dirty. -/
theorem readsZero_iff_not_dirtyRead {s : State} (reached : s.W.stat = .saok ∨ Settled s)
    (inside : ¬ TakesPastEnd s) : ReadsZero (cycle s).E ↔ ¬ DirtyRead s := by
  have ahead (reg : Rregister) (member : reg ∈ handedOver s) (eight : reg = regSize) :
      lastWrite reg (aheadWrites s) ≠ none := by
    rintro none
    exact inside ⟨eight ▸ member, eight ▸ none⟩
  rw [readsZero_cycle_iff reached]
  constructor
  · rintro zero ⟨reg, value, member, rejected, last, nonzero⟩
    have read := forwardB_of_rejected reached rejected (ahead reg member)
    rw [zero reg member rejected, last] at read
    exact nonzero read.symm
  · intro clean reg member rejected
    rw [forwardB_of_rejected reached rejected (ahead reg member)]
    cases last : lastWrite reg (aheadWrites s) with
    | none => rfl
    | some value =>
        by_contra nonzero
        exact clean ⟨reg, value, member, rejected, last, nonzero⟩

/-- For every program: in a run none of whose cycles takes the word behind the registers
or makes a dirty read, the operands that decode hands to E are zero where their ids
are rejected, in every cycle, the last one included.  In a cycle of any run that does
not take that word, they are if and only if the read is not dirty. -/
theorem rejectedIds_iff (u : Undetermined) (memory : Memory) :
    ((∀ count, Runs (setupyess u memory) count →
          ¬ TakesPastEnd (cycle^[count] (setupyess u memory)) ∧
            ¬ DirtyRead (cycle^[count] (setupyess u memory))) →
        ∀ count, Runs (setupyess u memory) count →
          ReadsZero (cycle^[count + 1] (setupyess u memory)).E) ∧
      ∀ count, Runs (setupyess u memory) count →
        ¬ TakesPastEnd (cycle^[count] (setupyess u memory)) →
          (ReadsZero (cycle^[count + 1] (setupyess u memory)).E ↔
            ¬ DirtyRead (cycle^[count] (setupyess u memory))) := by
  have exactly (count : Nat) (runs : Runs (setupyess u memory) count)
      (inside : ¬ TakesPastEnd (cycle^[count] (setupyess u memory))) :
      ReadsZero (cycle^[count + 1] (setupyess u memory)).E ↔
        ¬ DirtyRead (cycle^[count] (setupyess u memory)) := by
    rw [Function.iterate_succ_apply']
    exact readsZero_iff_not_dirtyRead (running_or_settled runs) inside
  refine ⟨fun clean count runs => ?_, exactly⟩
  obtain ⟨inside, notDirty⟩ := clean count runs
  exact (exactly count runs inside).mpr notDirty

/-- An `irmovl` of five to the id 9, and an `rrmovl` from it to `%eax`. -/
def moveThroughNine : Memory := fun place =>
  if place.val = 0 then 0x0005F930 else if place.val = 1 then 0x90200000 else 0

/-- The `rrmovl` is handed the five. -/
theorem not_readsZero_moveThroughNine :
    Runs (setupyess .zero moveThroughNine) 2 ∧
      (cycle^[2 + 1] (setupyess .zero moveThroughNine)).E.srcA = 9 ∧
      (cycle^[2 + 1] (setupyess .zero moveThroughNine)).E.valA = 5 ∧
      ¬ ∀ count, Runs (setupyess .zero moveThroughNine) count →
        ReadsZero (cycle^[count + 1] (setupyess .zero moveThroughNine)).E := by
  have runs : Runs (setupyess .zero moveThroughNine) 2 := by decide +kernel
  have srcA : (cycle^[2 + 1] (setupyess .zero moveThroughNine)).E.srcA = 9 := by decide +kernel
  have valA : (cycle^[2 + 1] (setupyess .zero moveThroughNine)).E.valA = 5 := by decide +kernel
  refine ⟨runs, srcA, valA, fun zero => ?_⟩
  have rejected : Rejected (cycle^[2 + 1] (setupyess .zero moveThroughNine)).E.srcA := by
    rw [srcA]
    decide
  have isZero := (zero 2 runs).valA rejected
  rw [valA] at isZero
  exact absurd isZero (by decide)

end Yess
