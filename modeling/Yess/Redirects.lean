import Yess.Exceptions
import Yess.Forwarding
import Yess.Hazards

/-!
# Redirects of the PC

A mispredicted branch that reaches M and a `RET` that reaches W redirect the PC.  By
then the pipeline behind them holds bubbles only, so that the two never meet, nothing
stalls, and the instruction at the new PC enters D.
-/

namespace Yess

open Lib.Iteration

/-! ## What one call of fetch is to do -/

/-- The condition under which `selectPC` takes the fall-through address of a branch. -/
def Mispredicted (fwd : ForwardType) : Prop := fwd.M_icode = .jxx ∧ fwd.M_Cnd = 0

instance (fwd : ForwardType) : Decidable (Mispredicted fwd) := inferInstanceAs (Decidable (_ ∧ _))

/-- The condition under which `selectPC` takes a return address. -/
def Returning (fwd : ForwardType) : Prop := fwd.W_icode = .ret

instance (fwd : ForwardType) : Decidable (Returning fwd) := inferInstanceAs (Decidable (_ = _))

/-- The cycle from `s` redirects the PC: decode and execute have processed bubbles,
nothing is stalled or bubbled, and the instruction at the target enters D. -/
structure Redirected (s : State) (target : Word) : Prop where
  bubbleInD : s.D = clearDregister
  bubbleInE : s.E = clearEregister
  noStallF : stallF (beforeFetch s).forward = false
  noStallD : stallD (beforeFetch s).forward = false
  noBubbleD : bubbleD (beforeFetch s).forward = false
  enters : (cycle s).D = fetchInstruction (beforeFetch s).memory target

/-- The fetch call of the cycle from `s`: at most one redirect, and none is lost; behind
a `RET` in D, E or M only bubbles enter D, or the `RET` is stalled there; and D is not
stalled and bubbled at once. -/
structure FetchesInOrder (s : State) : Prop where
  exclusive : ¬ (Mispredicted (beforeFetch s).forward ∧ Returning (beforeFetch s).forward)
  mispredicted : Mispredicted (beforeFetch s).forward →
    Redirected s (beforeFetch s).forward.M_valA
  returning : Returning (beforeFetch s).forward → Redirected s (beforeFetch s).forward.W_valM
  behindRet : s.RetAhead →
    (cycle s).D = clearDregister ∨
      (s.D.icode = .ret ∧ stallD (beforeFetch s).forward = true ∧ (cycle s).D = s.D)
  notBoth : ¬ (stallD (beforeFetch s).forward = true ∧ bubbleD (beforeFetch s).forward = true)

/-! ## Bubbles behind a redirect -/

/-- Behind a mispredicted branch in M, and behind a `RET` in E, M or W, the pipeline
holds bubbles; and in the last cycle of the loop there is no redirect. -/
structure Flushed (s : State) : Prop where
  mispredicted : s.MispredictedM → s.E = clearEregister ∧ s.D = clearDregister
  retE : s.E.icode = .ret → s.D = clearDregister
  retM : s.M.icode = .ret → s.E = clearEregister ∧ s.D = clearDregister
  retW : s.W.icode = .ret →
    s.M = clearMregister ∧ s.E = clearEregister ∧ s.D = clearDregister
  last : Stopping s → s.M = clearMregister ∧ s.forward.W_icode ≠ .ret

theorem flushed_setupyess (u : Undetermined) (memory : Memory) :
    Flushed (setupyess u memory) := by
  constructor
  · rintro ⟨jump, -⟩
    exact nomatch jump
  · intro ret
    exact nomatch ret
  · intro ret
    exact nomatch ret
  · intro ret
    exact nomatch ret
  · intro stopping
    exact absurd stopping (not_stopping_setupyess u memory)

namespace State

theorem execution_clear {s : State} (bubble : s.E = clearEregister) :
    s.execution.M = clearMregister := by
  unfold execution
  rw [bubble]
  rfl

theorem access_clear {s : State} (bubble : s.M = clearMregister) :
    s.access = ⟨0, .saok, s.memory⟩ := by
  rw [access, bubble, memoryAccess_clear]

end State

section Running

variable {s : State} (running : s.W.stat = .saok)
include running

theorem bubbles_of_mispredictedE (missed : s.MispredictedE) :
    (cycle s).E = clearEregister ∧ (cycle s).D = clearDregister := by
  rw [cycle_running running]
  exact ⟨if_pos (State.bubbleE_of_mispredictedE missed),
    if_pos (State.bubbleD_of_mispredictedE missed)⟩

theorem bubble_of_retAhead (noUse : loadUse s.forwarded = false) (ret : s.RetAhead) :
    (cycle s).D = clearDregister := by
  rw [cycle_running running]
  exact if_pos (State.bubbleD_eq_true noUse ret)

theorem bubble_of_bubbleInD (bubble : s.D = clearDregister) : (cycle s).E = clearEregister := by
  rw [cycle_running running]
  dsimp only
  rw [State.decoded_clear bubble, ite_self]

theorem bubble_of_bubbleInE (bubble : s.E = clearEregister) : (cycle s).M = clearMregister := by
  rw [cycle_running running]
  dsimp only
  rw [State.execution_clear bubble, ite_self]

theorem ret_of_ret_E (ret : (cycle s).E.icode = .ret) :
    s.D.icode = .ret ∧ loadUse s.forwarded = false := by
  rw [cycle_running running] at ret
  dsimp only at ret
  cases bubbled : bubbleE s.forwarded with
  | true =>
      rw [bubbled] at ret
      exact nomatch ret
  | false =>
      rw [bubbled] at ret
      rw [State.bubbleE_forwarded, Bool.or_eq_false_iff] at bubbled
      exact ⟨ret, bubbled.2⟩

theorem cycle_M_cases : (cycle s).M = clearMregister ∨ (cycle s).M = s.execution.M := by
  rw [cycle_running running]
  exact ite_eq_or_eq _ _ _

end Running

/-- One cycle that is not the last keeps the bubbles behind redirects. -/
theorem flushed_cycle {s : State} (flushed : Flushed s) (running : ¬ Stopping s) :
    Flushed (cycle s) := by
  have normal : s.W.stat = .saok := not_not.mp running
  constructor
  · rintro ⟨jump, zero⟩
    rcases cycle_M_cases normal with bubble | executed
    · rw [bubble] at jump
      exact nomatch jump
    · rw [executed] at jump zero
      exact bubbles_of_mispredictedE normal ⟨jump, zero⟩
  · intro ret
    obtain ⟨retD, noUse⟩ := ret_of_ret_E normal ret
    exact bubble_of_retAhead normal noUse (Or.inl retD)
  · intro ret
    rcases cycle_M_cases normal with bubble | executed
    · rw [bubble] at ret
      exact nomatch ret
    · rw [executed] at ret
      have retE : s.E.icode = .ret := ret
      exact ⟨bubble_of_bubbleInD normal (flushed.retE retE),
        bubble_of_retAhead normal (State.loadUse_of_ret retE) (Or.inr (Or.inl retE))⟩
  · intro ret
    have retM : s.M.icode = .ret := by
      rw [cycle_running normal] at ret
      exact ret
    obtain ⟨bubbleE, bubbleD⟩ := flushed.retM retM
    exact ⟨bubble_of_bubbleInE normal bubbleE, bubble_of_bubbleInD normal bubbleD,
      bubble_of_retAhead normal (State.loadUse_clear bubbleE) (Or.inr (Or.inr retM))⟩
  · intro stopping
    refine ⟨(settled_cycle running).bubbled stopping, ?_⟩
    intro returning
    have retW : s.W.icode = .ret := by
      rw [cycle_running normal] at returning
      exact returning
    -- Behind the `RET` in W stands a bubble, which stops nothing.
    have bubble := (flushed.retW retW).1
    rw [cycle_running normal] at stopping
    exact stopping (congrArg MemoryAccess.stat (State.access_clear bubble))

/-- In every reachable machine, the pipeline behind a redirect holds bubbles. -/
theorem flushed_of_runs {u : Undetermined} {memory : Memory} {count : Nat}
    (runs : Runs (setupyess u memory) count) : Flushed (cycle^[count] (setupyess u memory)) := by
  have kept : ∀ (_ : Nat) (s : State), Flushed s → ¬ Stopping s → Flushed (cycle s) :=
    fun _ _ flushed running => flushed_cycle flushed running
  exact RunsFor.induction (flushed_setupyess u memory) kept runs

/-! ## The fetch call -/

theorem beforeFetch_codes (s : State) :
    (beforeFetch s).forward.D_icode = s.D.icode ∧ (beforeFetch s).forward.E_icode = s.E.icode ∧
      (beforeFetch s).forward.M_icode = s.M.icode ∧ (beforeFetch s).forward.M_Cnd = s.M.Cnd := by
  obtain ⟨registers, forward, frame⟩ := writebackStage_frame s
  rw [beforeFetch, beforeDecode, frame]
  exact ⟨rfl, rfl, rfl, rfl⟩

/-- In the last cycle of the loop fetch is told the code in W of an earlier cycle. -/
theorem beforeFetch_W_icode (s : State) :
    (beforeFetch s).forward.W_icode =
      if s.W.stat = .saok then s.W.icode else s.forward.W_icode := by
  by_cases running : s.W.stat = .saok
  · rw [beforeFetch_forward running, if_pos running]
    rfl
  · rw [beforeFetch, beforeDecode_stopping running, if_neg running]
    rfl

theorem cycle_D_eq (s : State) :
    (cycle s).D =
      if bubbleD (beforeFetch s).forward then clearDregister
      else if !stallD (beforeFetch s).forward then
        fetchInstruction (beforeFetch s).memory
          (selectPC (beforeFetch s).forward (beforeFetch s).F)
      else s.D := by
  rw [← beforeDecode_D s]
  rfl

/-- With bubbles in D and E and no `RET` in M, fetch goes on where it is told. -/
theorem redirected_of_bubbles {s : State} {target : Word} (bubbleInD : s.D = clearDregister)
    (bubbleInE : s.E = clearEregister) (notRet : s.M.icode ≠ .ret)
    (selected : selectPC (beforeFetch s).forward (beforeFetch s).F = target) :
    Redirected s target := by
  obtain ⟨codeD, codeE, codeM, -⟩ := beforeFetch_codes s
  rw [bubbleInD] at codeD
  rw [bubbleInE] at codeE
  have noStallD : stallD (beforeFetch s).forward = false :=
    loadUse_eq_false (by rw [codeE]; decide) (by rw [codeE]; decide)
  have noRet : ((beforeFetch s).forward.D_icode = .ret || (beforeFetch s).forward.E_icode = .ret ||
      (beforeFetch s).forward.M_icode = .ret) = false := by
    rw [codeD, codeE, codeM, decide_eq_false notRet]
    rfl
  have noBubbleD : bubbleD (beforeFetch s).forward = false := by
    unfold bubbleD
    rw [noRet, codeE, noStallD]
    rfl
  refine ⟨bubbleInD, bubbleInE, ?_, noStallD, noBubbleD, ?_⟩
  · change (stallD (beforeFetch s).forward || _) = false
    rw [noStallD]
    exact noRet
  · rw [cycle_D_eq, noBubbleD, noStallD, selected]
    rfl

/-- Behind a `RET` in D, E or M only bubbles enter D, or the `RET` is stalled there. -/
theorem Flushed.behindRet {s : State} (flushed : Flushed s) (ret : s.RetAhead) :
    (cycle s).D = clearDregister ∨
      (s.D.icode = .ret ∧ stallD (beforeFetch s).forward = true ∧ (cycle s).D = s.D) := by
  obtain ⟨codeD, codeE, codeM, -⟩ := beforeFetch_codes s
  rw [cycle_D_eq]
  cases bubbled : bubbleD (beforeFetch s).forward with
  | true => exact Or.inl rfl
  | false =>
      have told : ((beforeFetch s).forward.D_icode = .ret ||
          (beforeFetch s).forward.E_icode = .ret ||
          (beforeFetch s).forward.M_icode = .ret) = true := by
        rw [codeD, codeE, codeM, State.decide_retAhead]
        exact decide_eq_true ret
      have stalled : stallD (beforeFetch s).forward = true := by
        unfold bubbleD at bubbled
        rw [told, Bool.and_true, Bool.or_eq_false_iff, Bool.not_eq_false'] at bubbled
        exact bubbled.2
      have notQuiet {icode : Icode} (code : s.E.icode = icode) (noLoad : icode ≠ .mrmovl)
          (noPop : icode ≠ .popl) : False := by
        rw [← code, ← codeE] at noLoad noPop
        exact Bool.false_ne_true ((loadUse_eq_false noLoad noPop).symm.trans stalled)
      refine Or.inr ⟨?_, stalled, by rw [stalled]; rfl⟩
      rcases ret with retD | retE | retM
      · exact retD
      · exact (notQuiet retE (by decide) (by decide)).elim
      · have bubble := (flushed.retM retM).1
        exact (notQuiet (congrArg Eregister.icode bubble) (by decide) (by decide)).elim

theorem not_stallD_and_bubbleD (fwd : ForwardType) :
    ¬ (stallD fwd = true ∧ bubbleD fwd = true) := by
  rintro ⟨stalled, bubbled⟩
  have branch : fwd.E_icode = .jxx := by
    unfold bubbleD at bubbled
    rw [stalled, Bool.not_true, Bool.false_and, Bool.or_false, Bool.and_eq_true] at bubbled
    exact of_decide_eq_true bubbled.1
  have flows : stallD fwd = false :=
    loadUse_eq_false (by rw [branch]; decide) (by rw [branch]; decide)
  exact Bool.false_ne_true (flows.symm.trans stalled)

/-- Bubbles behind every redirect are all that the fetch call of a cycle needs. -/
theorem Flushed.fetchesInOrder {s : State} (flushed : Flushed s) : FetchesInOrder s := by
  obtain ⟨-, -, codeM, CndM⟩ := beforeFetch_codes s
  -- A return address comes from the `RET` in W, never from a cycle before the last.
  have fromW (returning : Returning (beforeFetch s).forward) : s.W.icode = .ret := by
    unfold Returning at returning
    rw [beforeFetch_W_icode] at returning
    by_cases running : s.W.stat = .saok
    · rwa [if_pos running] at returning
    · rw [if_neg running] at returning
      exact absurd returning (flushed.last running).2
  have exclusive (returning : Returning (beforeFetch s).forward) :
      ¬ Mispredicted (beforeFetch s).forward := by
    rintro ⟨jump, -⟩
    rw [codeM, (flushed.retW (fromW returning)).1] at jump
    exact nomatch jump
  constructor
  · rintro ⟨missed, returning⟩
    exact exclusive returning missed
  · intro missed
    have inM : s.MispredictedM := ⟨codeM ▸ missed.1, CndM ▸ missed.2⟩
    obtain ⟨bubbleInE, bubbleInD⟩ := flushed.mispredicted inM
    have notRet : s.M.icode ≠ .ret := by
      rw [inM.1]
      decide
    exact redirected_of_bubbles bubbleInD bubbleInE notRet (if_pos missed)
  · intro returning
    obtain ⟨bubbleInM, bubbleInE, bubbleInD⟩ := flushed.retW (fromW returning)
    have notRet : s.M.icode ≠ .ret := by
      rw [bubbleInM]
      decide
    have selected : selectPC (beforeFetch s).forward (beforeFetch s).F =
        (beforeFetch s).forward.W_valM :=
      (if_neg (exclusive returning)).trans (if_pos returning)
    exact redirected_of_bubbles bubbleInD bubbleInE notRet selected
  · exact flushed.behindRet
  · exact not_stallD_and_bubbleD _

/-- For every program and every cycle of its run, the last one included: redirects of
the PC never meet and are never lost, nothing fetched behind a `RET` in D, E or M
enters D, and D is not stalled and bubbled at once. -/
theorem fetchesInOrder_of_runs (u : Undetermined) (memory : Memory) (count : Nat)
    (runs : Runs (setupyess u memory) count) :
    FetchesInOrder (cycle^[count] (setupyess u memory)) :=
  (flushed_of_runs runs).fetchesInOrder

/-- A `RET` at address zero, which is also the word that it pops. -/
def retAtZero : Memory := fun place => if place.val = 0 then 0x90 else 0

/-- When the `RET` is in W, the instruction at the word popped enters D. -/
theorem fetchesInOrder_retAtZero :
    Returning (beforeFetch (cycle^[4] (setupyess .zero retAtZero))).forward ∧
      (beforeFetch (cycle^[4] (setupyess .zero retAtZero))).forward.W_valM = 0x90 ∧
      FetchesInOrder (cycle^[4] (setupyess .zero retAtZero)) := by
  have runs : Runs (setupyess .zero retAtZero) 4 := by decide +kernel
  exact ⟨by decide +kernel, by decide +kernel, fetchesInOrder_of_runs .zero retAtZero 4 runs⟩

end Yess
