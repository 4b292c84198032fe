import Yess.Cycle

/-!
# Traced runs

The machine does not mark its bubbles: a bubble in W looks like a `NOP` that
was fetched.  A traced run records beside the machine which pipeline registers
hold an instruction, by the same stall and bubble conditions that move the
contents, and collects the contents of W that are instructions.
-/

namespace Yess

open Lib.Iteration

/-- Which of the pipeline registers hold an instruction. -/
structure Occupied where
  D : Bool
  E : Bool
  M : Bool
  W : Bool
  deriving DecidableEq, Repr

/-- The marks after a cycle that ends with the given forward structure. -/
def Occupied.cycle (occupied : Occupied) (fwd : ForwardType) : Occupied where
  D := if bubbleD fwd then false else if !stallD fwd then true else occupied.D
  E := if bubbleE fwd then false else occupied.D
  M := if bubbleM fwd || exceptionAhead fwd then false else occupied.E
  W := if stallW fwd then occupied.W else occupied.M

/-- The machine, its marks, and the instructions that W has held, in order. -/
structure Traced where
  state : State
  occupied : Occupied
  committed : List Wregister

/-- The machine that `setupyess` builds holds no instruction. -/
def Traced.start (u : Undetermined) (memory : Memory) : Traced :=
  ⟨setupyess u memory, ⟨false, false, false, false⟩, []⟩

/-- One cycle; an instruction that enters W is added to the list. -/
def Traced.cycle (t : Traced) : Traced :=
  let state := Yess.cycle t.state
  let occupied := t.occupied.cycle state.forward
  { state := state
    occupied := occupied
    committed :=
      if !stallW state.forward && occupied.W then t.committed ++ [state.W] else t.committed }

/-- The number of instructions that have left W. -/
def Traced.retired (t : Traced) : Nat :=
  if t.occupied.W then t.committed.length - 1 else t.committed.length

theorem Traced.state_iterate (t : Traced) (count : Nat) :
    (Traced.cycle^[count] t).state = Yess.cycle^[count] t.state := by
  induction count with
  | zero => rfl
  | succ count ih =>
      rw [Function.iterate_succ_apply', Function.iterate_succ_apply', ← ih]
      rfl

theorem Traced.occupied_running {t : Traced} (running : t.state.W.stat = .saok) :
    t.cycle.occupied = t.occupied.cycle t.state.forwarded := by
  change t.occupied.cycle (Yess.cycle t.state).forward = _
  rw [cycle_running running]

theorem Traced.committed_running {t : Traced} (running : t.state.W.stat = .saok) :
    t.cycle.committed =
      if t.occupied.M then t.committed ++ [t.cycle.state.W] else t.committed := by
  have noStall : stallW (Yess.cycle t.state).forward = false := by
    rw [cycle_running running]
    rfl
  change (if !stallW (Yess.cycle t.state).forward &&
    (if stallW (Yess.cycle t.state).forward then _ else t.occupied.M) then _ else _) = _
  rw [noStall]
  rfl

/-- In the last cycle of a run, behind a bubble in M, nothing enters W. -/
theorem Traced.committed_stopping {t : Traced}
    (stale : (Yess.cycle t.state).forward.W_stat = .saok) (empty : t.occupied.M = false) :
    t.cycle.committed = t.committed := by
  have noStall : stallW (Yess.cycle t.state).forward = false := by
    rw [stallW_eq, stale]
    rfl
  change (if !stallW (Yess.cycle t.state).forward &&
    (if stallW (Yess.cycle t.state).forward then _ else t.occupied.M) then _ else _) = _
  rw [noStall, empty]
  rfl

end Yess
