import Yess.Cycle

/-!
# Hazards

The conditions under which the front of the pipeline is stalled or bubbled, as
conditions on the pipeline registers at the start of a cycle.
-/

namespace Yess

namespace State

def MispredictedE (s : State) : Prop := s.E.icode = .jxx ∧ s.execution.M.Cnd = 0

instance (s : State) : Decidable s.MispredictedE := inferInstanceAs (Decidable (_ ∧ _))

def MispredictedM (s : State) : Prop := s.M.icode = .jxx ∧ s.M.Cnd = 0

instance (s : State) : Decidable s.MispredictedM := inferInstanceAs (Decidable (_ ∧ _))

/-- A `RET` is in D, E or M, and fetch waits for its address. -/
def RetAhead (s : State) : Prop := s.D.icode = .ret ∨ s.E.icode = .ret ∨ s.M.icode = .ret

instance (s : State) : Decidable s.RetAhead := inferInstanceAs (Decidable (_ ∨ _))

theorem bubbleE_forwarded (s : State) :
    bubbleE s.forwarded = (decide s.MispredictedE || loadUse s.forwarded) := by
  unfold bubbleE MispredictedE
  rw [← Bool.decide_and]
  rfl

theorem decide_retAhead (s : State) :
    (decide (s.D.icode = .ret) || decide (s.E.icode = .ret) || decide (s.M.icode = .ret)) =
      decide s.RetAhead := by
  rw [Bool.eq_iff_iff, decide_eq_true_iff]
  simp [RetAhead, or_assoc]

theorem bubbleD_forwarded (s : State) :
    bubbleD s.forwarded =
      (decide s.MispredictedE || (!loadUse s.forwarded && decide s.RetAhead)) := by
  rw [← decide_retAhead]
  unfold bubbleD MispredictedE
  rw [← Bool.decide_and]
  rfl

theorem stallF_forwarded (s : State) :
    stallF s.forwarded = (loadUse s.forwarded || decide s.RetAhead) := by
  rw [← decide_retAhead]
  rfl

theorem loadUse_of_icode {s : State} {icode : Icode} (code : s.E.icode = icode)
    (noLoad : icode ≠ .mrmovl) (noPop : icode ≠ .popl) : loadUse s.forwarded = false := by
  rw [← code] at noLoad noPop
  exact loadUse_eq_false noLoad noPop

theorem loadUse_clear {s : State} (bubble : s.E = clearEregister) :
    loadUse s.forwarded = false :=
  loadUse_of_icode (congrArg Eregister.icode bubble) (by decide) (by decide)

theorem loadUse_of_ret {s : State} (ret : s.E.icode = .ret) : loadUse s.forwarded = false :=
  loadUse_of_icode ret (by decide) (by decide)

theorem not_mispredictedE_clear {s : State} (bubble : s.E = clearEregister) :
    ¬ s.MispredictedE := by
  rintro ⟨code, -⟩
  rw [bubble] at code
  exact nomatch code

theorem not_mispredictedE_of_ret {s : State} (ret : s.E.icode = .ret) : ¬ s.MispredictedE := by
  rintro ⟨code, -⟩
  exact nomatch ret.symm.trans code

theorem decoded_clear {s : State} (bubble : s.D = clearDregister) :
    s.decoded = clearEregister := by
  unfold decoded
  rw [bubble]
  rfl

theorem bubbleE_of_mispredictedE {s : State} (missed : s.MispredictedE) :
    bubbleE s.forwarded = true := by
  rw [bubbleE_forwarded, decide_eq_true missed, Bool.true_or]

theorem bubbleD_of_mispredictedE {s : State} (missed : s.MispredictedE) :
    bubbleD s.forwarded = true := by
  rw [bubbleD_forwarded, decide_eq_true missed, Bool.true_or]

theorem bubbleE_eq_false {s : State} (right : ¬ s.MispredictedE)
    (noUse : loadUse s.forwarded = false) : bubbleE s.forwarded = false := by
  rw [bubbleE_forwarded, noUse, decide_eq_false right]
  rfl

theorem bubbleD_eq_true {s : State} (noUse : loadUse s.forwarded = false) (ret : s.RetAhead) :
    bubbleD s.forwarded = true := by
  rw [bubbleD_forwarded, noUse, decide_eq_true ret]
  exact Bool.or_true _

end State

end Yess
