import Yess.Hazards
import Yess.Pipeline.Rear
import Yess.Lib.Schedule

/-!
# The front of the pipeline

What D and F hold, and how many cycles pass before the next instruction of the
sequential run enters E: none without a hazard, one behind a load/use hazard,
two behind a mispredicted branch, three behind a `RET`.
-/

namespace Yess

open Lib.Iteration

/-! ## The registers after a cycle -/

section Running

variable {t : Traced}

theorem cycle_E (running : t.state.W.stat = .saok) :
    t.cycle.state.E =
      if bubbleE t.state.forwarded then clearEregister else t.state.decoded := by
  change (cycle t.state).E = _
  rw [cycle_running running]

theorem cycle_D (running : t.state.W.stat = .saok) :
    t.cycle.state.D =
      if bubbleD t.state.forwarded then clearDregister
      else if !stallD t.state.forwarded then
        fetchInstruction t.state.access.memory (selectPC t.state.forwarded t.state.F)
      else t.state.D := by
  change (cycle t.state).D = _
  rw [cycle_running running]

theorem cycle_predPC (running : t.state.W.stat = .saok) :
    t.cycle.state.F.predPC =
      if stallF t.state.forwarded then selectPC t.state.forwarded t.state.F
      else
        let fetched :=
          fetchInstruction t.state.access.memory (selectPC t.state.forwarded t.state.F)
        predictPC fetched.icode fetched.valC fetched.valP := by
  change (cycle t.state).F.predPC = _
  rw [cycle_running running]

theorem cycle_M (running : t.state.W.stat = .saok) (normal : t.state.access.stat = .saok) :
    t.cycle.state.M = t.state.execution.M := by
  change (cycle t.state).M = _
  rw [cycle_running running, normal]
  rfl

theorem cycle_W (running : t.state.W.stat = .saok) :
    t.cycle.state.W = ⟨t.state.access.stat, t.state.M.icode, t.state.M.valE, t.state.access.valM,
      t.state.M.dstE, t.state.M.dstM⟩ := by
  change (cycle t.state).W = _
  rw [cycle_running running]

theorem cycle_occupied_E (running : t.state.W.stat = .saok) :
    t.cycle.occupied.E = if bubbleE t.state.forwarded then false else t.occupied.D := by
  rw [Traced.occupied_running running]
  rfl

theorem cycle_occupied_D (running : t.state.W.stat = .saok) :
    t.cycle.occupied.D =
      if bubbleD t.state.forwarded then false
      else if !stallD t.state.forwarded then true
      else t.occupied.D := by
  rw [Traced.occupied_running running]
  rfl

end Running

/-- The control signals of a cycle that moves every instruction ahead. -/
structure Flows (fwd : ForwardType) : Prop where
  bubbleE : bubbleE fwd = false
  bubbleD : bubbleD fwd = false
  stallD : stallD fwd = false
  stallF : stallF fwd = false

theorem State.flows {s : State} (right : ¬ s.MispredictedE) (noUse : loadUse s.forwarded = false)
    (noRet : ¬ s.RetAhead) : Flows s.forwarded where
  bubbleE := bubbleE_eq_false right noUse
  bubbleD := by
    rw [bubbleD_forwarded, decide_eq_false right, decide_eq_false noRet, Bool.and_false]
    rfl
  stallD := noUse
  stallF := by
    rw [stallF_forwarded, noUse, decide_eq_false noRet]
    rfl

namespace Flows

variable {t : Traced}

theorem E (flows : Flows t.state.forwarded) (running : t.state.W.stat = .saok) :
    t.cycle.state.E = t.state.decoded := by
  rw [cycle_E running, flows.bubbleE, if_neg Bool.false_ne_true]

theorem occupied_E (flows : Flows t.state.forwarded) (running : t.state.W.stat = .saok) :
    t.cycle.occupied.E = t.occupied.D := by
  rw [cycle_occupied_E running, flows.bubbleE, if_neg Bool.false_ne_true]

theorem D (flows : Flows t.state.forwarded) (running : t.state.W.stat = .saok) :
    t.cycle.state.D =
      fetchInstruction t.state.access.memory (selectPC t.state.forwarded t.state.F) := by
  rw [cycle_D running, flows.bubbleD, flows.stallD]
  rfl

theorem occupied_D (flows : Flows t.state.forwarded) (running : t.state.W.stat = .saok) :
    t.cycle.occupied.D = true := by
  rw [cycle_occupied_D running, flows.bubbleD, flows.stallD]
  rfl

theorem predPC (flows : Flows t.state.forwarded) (running : t.state.W.stat = .saok) :
    t.cycle.state.F.predPC =
      predictPC t.cycle.state.D.icode t.cycle.state.D.valC t.cycle.state.D.valP := by
  rw [flows.D running, cycle_predPC running, flows.stallF]
  rfl

end Flows

/-- Nothing behind D redirects the PC or holds fetch back. -/
structure Quiet (s : State) : Prop where
  M_right : ¬ s.MispredictedM
  M_notRet : s.M.icode ≠ .ret
  W_notRet : s.W.icode ≠ .ret

/-- The next cycle is quiet when no branch in E goes wrong and no `RET` is in E or M. -/
theorem Quiet.cycle {t : Traced} (running : t.state.W.stat = .saok)
    (normal : t.state.access.stat = .saok) (right : ¬ t.state.MispredictedE)
    (E_notRet : t.state.E.icode ≠ .ret) (M_notRet : t.state.M.icode ≠ .ret) :
    Quiet t.cycle.state := by
  refine ⟨?_, ?_, ?_⟩
  · unfold State.MispredictedM
    rw [cycle_M running normal]
    exact right
  · rw [cycle_M running normal]
    exact E_notRet
  · rw [cycle_W running]
    exact M_notRet

theorem Quiet.selectPC {s : State} (quiet : Quiet s) :
    selectPC s.forwarded s.F = s.F.predPC := by
  exact (if_neg quiet.M_right).trans (if_neg quiet.W_notRet)

/-- The state of D and F, with the number of cycles before instruction number
`issued` enters E.
`ready`: D holds the instruction.
`junk`: the branch in E is mispredicted, and D holds an instruction off the path.
`fill`: D and E hold bubbles, and the PC is the address of the instruction.
`ret3`, `ret2`: a `RET` is in E, in M, and fetch waits for its address. -/
inductive Front (memory : Memory) (t : Traced) (stored executed issued : Nat) : Nat → Prop where
  | ready (D : t.state.D = (seqAt memory issued).instruction) (occupied : t.occupied.D = true)
      (predicted : t.state.F.predPC =
        predictPC t.state.D.icode t.state.D.valC t.state.D.valP)
      (quiet : Quiet t.state) (right : ¬ t.state.MispredictedE) (notRet : t.state.E.icode ≠ .ret) :
      Front memory t stored executed issued (if loadUse t.state.forwarded then 1 else 0)
  | junk (inE : issued = executed + 1) (mispredicted : (seqAt memory executed).Mispredicted) :
      Front memory t stored executed issued 2
  | fill (D : t.state.D = clearDregister) (occupied : t.occupied.D = false)
      (empty : issued = executed) (notRet : t.state.M.icode ≠ .ret)
      (pc : selectPC t.state.forwarded t.state.F = (seqAt memory issued).pc) :
      Front memory t stored executed issued 1
  | ret3 (D : t.state.D = clearDregister) (occupied : t.occupied.D = false)
      (inE : issued = executed + 1) (code : (seqAt memory executed).instruction.icode = .ret) :
      Front memory t stored executed issued 3
  | ret2 (D : t.state.D = clearDregister) (occupied : t.occupied.D = false)
      (empty : issued = executed) (inM : executed = stored + 1)
      (code : (seqAt memory stored).instruction.icode = .ret) :
      Front memory t stored executed issued 2

/-! ## Waiting -/

/-- The whole pipeline, up to E, follows the sequential run. -/
structure Follows (memory : Memory) (t : Traced) (retired stored executed issued : Nat) : Prop where
  rear : Rear memory t retired stored executed
  issue : Issued memory t executed issued
  reached : Reaches memory issued

variable {memory : Memory} {t : Traced} {retired stored executed issued : Nat}

/-- With an instruction of the sequence in E, the branch there is mispredicted when it is
in the sequence. -/
theorem mispredictedE_iff_seq {s : State} {index : Nat} (E : s.E = (seqAt memory index).operands)
    (execution : s.execution = (seqAt memory index).executed) :
    s.MispredictedE ↔ (seqAt memory index).Mispredicted := by
  unfold State.MispredictedE
  rw [execution, E]
  exact Iff.rfl

namespace Follows

theorem executed_reached (follows : Follows memory t retired stored executed issued) :
    Reaches memory executed :=
  follows.reached.of_le follows.issue.executed_le

theorem running (follows : Follows memory t retired stored executed issued) :
    t.state.W.stat = .saok :=
  follows.rear.running (follows.executed_reached.of_le follows.rear.stored_le)

theorem normal (well : WellBehaved memory)
    (follows : Follows memory t retired stored executed issued) : t.state.access.stat = .saok :=
  follows.rear.access_stat well follows.executed_reached

theorem bubble (well : WellBehaved memory)
    (follows : Follows memory t retired stored executed issued)
    (E : t.cycle.state.E = clearEregister) (occupied : t.cycle.occupied.E = false) :
    Follows memory t.cycle stored executed issued issued := by
  obtain ⟨rear, CC⟩ := follows.rear.cycle well follows.issue follows.executed_reached
  refine ⟨rear, ⟨Or.inl rfl, ?_, ?_, CC⟩, follows.reached⟩
  · rw [slot_empty, E]
  · rw [occupied, decide_eq_false (Nat.lt_irrefl issued)]

/-- Behind a load/use hazard the instruction stays in D for one cycle. -/
theorem hazard (well : WellBehaved memory)
    (follows : Follows memory t retired stored executed issued)
    (D : t.state.D = (seqAt memory issued).instruction) (occupied : t.occupied.D = true)
    (predicted : t.state.F.predPC = predictPC t.state.D.icode t.state.D.valC t.state.D.valP)
    (quiet : Quiet t.state) (right : ¬ t.state.MispredictedE) (notRet : t.state.E.icode ≠ .ret)
    (use : loadUse t.state.forwarded = true) :
    Follows memory t.cycle stored executed issued issued ∧
      Front memory t.cycle executed issued issued 0 := by
  have running := follows.running
  have bubbled : bubbleE t.state.forwarded = true := by
    rw [State.bubbleE_forwarded, use, Bool.or_true]
  have noBubble : bubbleD t.state.forwarded = false := by
    rw [State.bubbleD_forwarded, use, decide_eq_false right, Bool.not_true, Bool.false_and,
      Bool.false_or]
  have stalled : stallD t.state.forwarded = true := use
  have held : stallF t.state.forwarded = true := by
    rw [State.stallF_forwarded, use, Bool.true_or]
  have E : t.cycle.state.E = clearEregister := by rw [cycle_E running, bubbled, if_pos rfl]
  have sameD : t.cycle.state.D = t.state.D := by
    rw [cycle_D running, noBubble, stalled]
    rfl
  refine ⟨follows.bubble well E (by rw [cycle_occupied_E running, bubbled, if_pos rfl]), ?_⟩
  have ready : Front memory t.cycle executed issued issued
      (if loadUse t.cycle.state.forwarded then 1 else 0) := by
    refine .ready (sameD.trans D) ?_ ?_
      (Quiet.cycle running (follows.normal well) right notRet quiet.M_notRet)
      (State.not_mispredictedE_clear E) (by rw [E]; decide)
    · rw [cycle_occupied_D running, noBubble, stalled]
      exact occupied
    · rw [sameD, cycle_predPC running, held, if_pos rfl, quiet.selectPC, predicted]
  rwa [State.loadUse_clear E] at ready

/-- Behind a mispredicted branch the two instructions off the path become bubbles. -/
theorem junk (well : WellBehaved memory)
    (follows : Follows memory t retired stored executed issued)
    (inE : issued = executed + 1) (mispredicted : (seqAt memory executed).Mispredicted) :
    Follows memory t.cycle stored executed issued issued ∧
      Front memory t.cycle executed issued issued 1 := by
  have running := follows.running
  have normal := follows.normal well
  have execution := follows.issue.execution normal
  have E := follows.issue.E
  subst inE
  rw [slot_full] at execution E
  have wrong : t.state.MispredictedE := (mispredictedE_iff_seq E execution).mpr mispredicted
  have bubbledE := State.bubbleE_of_mispredictedE wrong
  have bubbledD := State.bubbleD_of_mispredictedE wrong
  have M : t.cycle.state.M = (seqAt memory executed).executed.M := by
    rw [cycle_M running normal, execution]
  have redirected : selectPC t.cycle.state.forwarded t.cycle.state.F = t.cycle.state.M.valA := by
    apply if_pos
    change t.cycle.state.M.icode = .jxx ∧ t.cycle.state.M.Cnd = 0
    rw [M]
    exact mispredicted
  refine ⟨follows.bubble well ?_ ?_, .fill ?_ ?_ rfl ?_ ?_⟩
  · rw [cycle_E running, bubbledE, if_pos rfl]
  · rw [cycle_occupied_E running, bubbledE, if_pos rfl]
  · rw [cycle_D running, bubbledD, if_pos rfl]
  · rw [cycle_occupied_D running, bubbledD, if_pos rfl]
  · rw [M, SeqState.executed_icode, mispredicted.1]
    decide
  · rw [redirected, M, seqAt_succ]
    exact mispredicted.nextPC.symm

theorem fill (well : WellBehaved memory)
    (follows : Follows memory t retired stored executed issued)
    (D : t.state.D = clearDregister) (occupied : t.occupied.D = false)
    (empty : issued = executed) (notRet : t.state.M.icode ≠ .ret)
    (pc : selectPC t.state.forwarded t.state.F = (seqAt memory issued).pc) :
    Follows memory t.cycle stored executed issued issued ∧
      Front memory t.cycle executed issued issued 0 := by
  have running := follows.running
  have normal := follows.normal well
  have E := follows.issue.E
  subst empty
  rw [slot_empty] at E
  have right := State.not_mispredictedE_clear E
  have noRet : ¬ t.state.RetAhead := by
    unfold State.RetAhead
    rw [D, E]
    rintro (code | code | code)
    · exact nomatch code
    · exact nomatch code
    · exact notRet code
  have flows := State.flows right (State.loadUse_clear E) noRet
  have bubble : t.cycle.state.E = clearEregister :=
    (flows.E running).trans (State.decoded_clear D)
  have newD : t.cycle.state.D = (seqAt memory issued).instruction := by
    rw [flows.D running, pc, follows.rear.access_memory]
    rfl
  refine ⟨follows.bubble well bubble ((flows.occupied_E running).trans occupied), ?_⟩
  have ready : Front memory t.cycle issued issued issued
      (if loadUse t.cycle.state.forwarded then 1 else 0) :=
    .ready newD (flows.occupied_D running) (flows.predPC running)
      (Quiet.cycle running normal right (by rw [E]; decide) notRet)
      (State.not_mispredictedE_clear bubble) (by rw [bubble]; decide)
  rwa [State.loadUse_clear bubble] at ready

theorem retBubbles (well : WellBehaved memory)
    (follows : Follows memory t retired stored executed issued)
    (D : t.state.D = clearDregister) (occupied : t.occupied.D = false)
    (noUse : loadUse t.state.forwarded = false) (right : ¬ t.state.MispredictedE)
    (ret : t.state.E.icode = .ret ∨ t.state.M.icode = .ret) :
    Follows memory t.cycle stored executed issued issued ∧
      t.cycle.state.D = clearDregister ∧ t.cycle.occupied.D = false := by
  have running := follows.running
  have noBubbleE := State.bubbleE_eq_false right noUse
  have bubbledD := State.bubbleD_eq_true noUse (Or.inr ret)
  refine ⟨follows.bubble well ?_ ?_, ?_, ?_⟩
  · rw [cycle_E running, noBubbleE]
    exact State.decoded_clear D
  · rw [cycle_occupied_E running, noBubbleE]
    exact occupied
  · rw [cycle_D running, bubbledD, if_pos rfl]
  · rw [cycle_occupied_D running, bubbledD, if_pos rfl]

theorem ret3 (well : WellBehaved memory)
    (follows : Follows memory t retired stored executed issued)
    (D : t.state.D = clearDregister) (occupied : t.occupied.D = false)
    (inE : issued = executed + 1) (code : (seqAt memory executed).instruction.icode = .ret) :
    Follows memory t.cycle stored executed issued issued ∧
      Front memory t.cycle executed issued issued 2 := by
  have E := follows.issue.E
  subst inE
  rw [slot_full] at E
  have ret : t.state.E.icode = .ret := by
    rw [E]
    exact code
  obtain ⟨next, newD, newOccupied⟩ := follows.retBubbles well D occupied
    (State.loadUse_of_ret ret) (State.not_mispredictedE_of_ret ret) (Or.inl ret)
  exact ⟨next, .ret2 newD newOccupied rfl rfl code⟩

theorem ret2 (well : WellBehaved memory)
    (follows : Follows memory t retired stored executed issued)
    (D : t.state.D = clearDregister) (occupied : t.occupied.D = false)
    (empty : issued = executed) (inM : executed = stored + 1)
    (code : (seqAt memory stored).instruction.icode = .ret) :
    Follows memory t.cycle stored executed issued issued ∧
      Front memory t.cycle executed issued issued 1 := by
  have normal := follows.normal well
  have E := follows.issue.E
  have execution := follows.issue.execution normal
  have M := follows.rear.M
  have access := follows.rear.access
  subst empty inM
  rw [slot_empty] at E execution
  rw [slot_full] at M access
  have ret : t.state.M.icode = .ret := by
    rw [M]
    exact code
  obtain ⟨next, newD, newOccupied⟩ := follows.retBubbles well D occupied
    (State.loadUse_clear E) (State.not_mispredictedE_clear E) (Or.inr ret)
  have newM : t.cycle.state.M = clearMregister := by
    rw [cycle_M follows.running normal, execution]
  have newW := cycle_W follows.running
  have notJump : ¬ (t.cycle.state.M.icode = .jxx ∧ t.cycle.state.M.Cnd = 0) := by
    rw [newM]
    decide
  have returned : t.cycle.state.W.icode = .ret := by
    rw [newW]
    exact ret
  refine ⟨next, .fill newD newOccupied rfl (by rw [newM]; decide) ?_⟩
  have pc : selectPC t.cycle.state.forwarded t.cycle.state.F = t.cycle.state.W.valM :=
    (if_neg notJump).trans (if_pos returned)
  rw [pc, newW, access, seqAt_succ]
  exact (SeqState.nextPC_ret code).symm

end Follows

/-- While the next instruction is not ready to enter E, nothing is issued and the
wait gets shorter by one cycle. -/
theorem Front.wait (well : WellBehaved memory) {pending : Nat}
    (follows : Follows memory t retired stored executed issued)
    (front : Front memory t stored executed issued (pending + 1)) :
    Follows memory t.cycle stored executed issued issued ∧
      Front memory t.cycle executed issued issued pending := by
  generalize total : pending + 1 = waiting at front
  cases front with
  | ready D occupied predicted quiet right notRet =>
      by_cases use : loadUse t.state.forwarded = true
      · rw [if_pos use] at total
        obtain rfl : pending = 0 := Nat.succ.inj total
        exact follows.hazard well D occupied predicted quiet right notRet use
      · rw [if_neg use] at total
        exact absurd total (Nat.succ_ne_zero pending)
  | junk inE mispredicted =>
      obtain rfl : pending = 1 := Nat.succ.inj total
      exact follows.junk well inE mispredicted
  | fill D occupied empty notRet pc =>
      obtain rfl : pending = 0 := Nat.succ.inj total
      exact follows.fill well D occupied empty notRet pc
  | ret3 D occupied inE code =>
      obtain rfl : pending = 2 := Nat.succ.inj total
      exact follows.ret3 well D occupied inE code
  | ret2 D occupied empty inM code =>
      obtain rfl : pending = 1 := Nat.succ.inj total
      exact follows.ret2 well D occupied empty inM code

/-! ## Issuing an instruction -/

/-- The cycles lost between an instruction and the next one. -/
def gap (memory : Memory) (index : Nat) : Nat :=
  if (seqAt memory index).instruction.icode = .ret then 3
  else if (seqAt memory index).Mispredicted then 2
  else if (seqAt memory index).LoadUse (seqAt memory (index + 1)) then 1
  else 0

/-- An instruction that can enter E is in D, and nothing holds it back. -/
structure Ready (memory : Memory) (t : Traced) (issued : Nat) : Prop where
  D : t.state.D = (seqAt memory issued).instruction
  occupied : t.occupied.D = true
  predicted : t.state.F.predPC = predictPC t.state.D.icode t.state.D.valC t.state.D.valP
  quiet : Quiet t.state
  right : ¬ t.state.MispredictedE
  notRet : t.state.E.icode ≠ .ret
  noUse : loadUse t.state.forwarded = false

theorem Front.ready_of_zero (front : Front memory t stored executed issued 0) :
    Ready memory t issued := by
  generalize total : 0 = waiting at front
  cases front with
  | ready D occupied predicted quiet right notRet =>
      refine ⟨D, occupied, predicted, quiet, right, notRet, ?_⟩
      by_contra use
      rw [if_pos (Bool.not_eq_false _ ▸ use)] at total
      exact absurd total (by decide)
  | junk => exact absurd total (by decide)
  | fill => exact absurd total (by decide)
  | ret3 => exact absurd total (by decide)
  | ret2 => exact absurd total (by decide)

/-- The instruction in D enters E with the operands of the sequential machine, and
the instructions ahead of it move on. -/
theorem Follows.enter (well : WellBehaved memory)
    (follows : Follows memory t retired stored executed issued) (ready : Ready memory t issued) :
    Rear memory t.cycle stored executed issued ∧ Issued memory t.cycle issued (issued + 1) := by
  have running := follows.running
  obtain ⟨rear, CC⟩ := follows.rear.cycle well follows.issue follows.executed_reached
  have noBubble := State.bubbleE_eq_false ready.right ready.noUse
  refine ⟨rear, Or.inr rfl, ?_, ?_, CC⟩
  · rw [cycle_E running, noBubble, slot_full]
    exact follows.issue.decoded well follows.rear (follows.normal well) follows.reached ready.D
      ready.noUse
  · rw [cycle_occupied_E running, noBubble, decide_eq_true (Nat.lt_succ_self issued)]
    exact ready.occupied

/-- The next instruction can be fetched before the instructions in E and D have
stored, because these do not store over it. -/
theorem fetch_early (well : WellBehaved memory) (next : issued = executed ∨ issued = executed + 1)
    (reached : Reaches memory (issued + 1)) :
    fetchInstruction (seqAt memory executed).memory (seqAt memory (issued + 1)).pc =
      (seqAt memory (issued + 1)).instruction := by
  have bytes := well.bytes (issued + 1) reached
  have last : fetchInstruction (seqAt memory issued).memory (seqAt memory (issued + 1)).pc =
      (seqAt memory (issued + 1)).instruction := by
    apply (well.apart issued _ (Or.inl rfl) reached).fetchInstruction_eq bytes
    rw [seqAt_succ]
    rfl
  rcases next with rfl | rfl
  · exact last
  · apply (well.apart executed _ (Or.inr rfl) reached).fetchInstruction_eq bytes
    rw [← last, seqAt_succ memory executed]
    rfl

theorem Follows.enter_ret (follows : Follows memory t retired stored executed issued)
    (ready : Ready memory t issued) (ret : (seqAt memory issued).instruction.icode = .ret) :
    Front memory t.cycle executed issued (issued + 1) 3 := by
  have running := follows.running
  have ahead : t.state.RetAhead := Or.inl (by rw [ready.D, ret])
  have bubbled := State.bubbleD_eq_true ready.noUse ahead
  refine .ret3 ?_ ?_ rfl ret
  · rw [cycle_D running, bubbled, if_pos rfl]
  · rw [cycle_occupied_D running, bubbled, if_pos rfl]

/-- Behind an instruction that leaves the PC as predicted, the pipeline flows. -/
theorem Ready.flows (ready : Ready memory t issued)
    (notRet : (seqAt memory issued).instruction.icode ≠ .ret) : Flows t.state.forwarded := by
  apply State.flows ready.right ready.noUse
  rintro (code | code | code)
  · exact notRet (ready.D ▸ code)
  · exact ready.notRet code
  · exact ready.quiet.M_notRet code

theorem Follows.fetched (well : WellBehaved memory)
    (follows : Follows memory t retired stored executed issued) (ready : Ready memory t issued)
    (reached : Reaches memory (issued + 1))
    (notRet : (seqAt memory issued).instruction.icode ≠ .ret)
    (predicted : ¬ (seqAt memory issued).Mispredicted) :
    t.cycle.state.D = (seqAt memory (issued + 1)).instruction := by
  have pc : selectPC t.state.forwarded t.state.F = (seqAt memory (issued + 1)).pc := by
    rw [ready.quiet.selectPC, ready.predicted, ready.D, seqAt_succ]
    exact (SeqState.nextPC_predicted predicted notRet).symm
  rw [(ready.flows notRet).D follows.running, pc, follows.rear.access_memory]
  exact fetch_early well follows.issue.E_next reached

/-- With two consecutive instructions in E and D, a load/use hazard is one between the two. -/
theorem loadUse_iff_seq {s : State} (E : s.E = (seqAt memory issued).operands)
    (D : s.D = (seqAt memory (issued + 1)).instruction) :
    loadUse s.forwarded = true ↔ (seqAt memory issued).LoadUse (seqAt memory (issued + 1)) := by
  rw [loadUse_iff]
  change (s.E.icode = _ ∨ s.E.icode = _) ∧
    (s.E.dstM = getSrcA s.D ∨ s.E.dstM = getSrcB s.D) ↔ _
  rw [E, D]
  exact Iff.rfl

/-- When an instruction that does not stop the machine has entered E, the next one
follows after the gap between the two. -/
theorem Follows.advance (well : WellBehaved memory)
    (follows : Follows memory t retired stored executed issued) (ready : Ready memory t issued)
    (goesOn : ¬ (seqAt memory issued).Stops) :
    Follows memory t.cycle stored executed issued (issued + 1) ∧
      Front memory t.cycle executed issued (issued + 1) (gap memory issued) := by
  have running := follows.running
  have reached : Reaches memory (issued + 1) := follows.reached.succ goesOn
  obtain ⟨rear, issue⟩ := follows.enter well ready
  have next : Follows memory t.cycle stored executed issued (issued + 1) := ⟨rear, issue, reached⟩
  refine ⟨next, ?_⟩
  unfold gap
  by_cases ret : (seqAt memory issued).instruction.icode = .ret
  · rw [if_pos ret]
    exact follows.enter_ret ready ret
  · rw [if_neg ret]
    by_cases mispredicted : (seqAt memory issued).Mispredicted
    · rw [if_pos mispredicted]
      exact .junk rfl mispredicted
    · rw [if_neg mispredicted]
      have flows := ready.flows ret
      have D := follows.fetched well ready reached ret mispredicted
      have E : t.cycle.state.E = (seqAt memory issued).operands := by
        rw [issue.E, slot_full]
      have execution := issue.execution (next.normal well)
      rw [slot_full] at execution
      have right : ¬ t.cycle.state.MispredictedE :=
        (not_congr (mispredictedE_iff_seq E execution)).mpr mispredicted
      have quiet : Quiet t.cycle.state := Quiet.cycle running (follows.normal well) ready.right
        ready.notRet ready.quiet.M_notRet
      have front : Front memory t.cycle executed issued (issued + 1)
          (if loadUse t.cycle.state.forwarded then 1 else 0) :=
        .ready D (flows.occupied_D running) (flows.predPC running) quiet right (E ▸ ret)
      simpa only [loadUse_iff_seq E D] using front

end Yess
