import Yess.WritebackStage
import Yess.MemoryStage
import Yess.ExecuteStage
import Yess.FetchStage
import Yess.Lib.Iteration

/-!
# Main loop

`main.c`: the stages run from the last to the first, one pass a clock cycle,
until `writebackStage` returns `-1`.
-/

namespace Yess

open Lib.Iteration

/-- What the source leaves undetermined when the loop is entered: the cells
outside `registers[]` and the automatic variable `forward`. -/
structure Undetermined where
  outside : Int → Word
  forward : ForwardType

/-- The case in which everything undetermined happens to be zero. -/
def Undetermined.zero : Undetermined where
  outside := fun _ => 0
  forward := ⟨.halt, 0, 0, .halt, 0, 0, 0, 0, .halt, 0, 0, 0, 0, 0, .saok, 0, .saok, .halt, 0, 0,
    0, 0⟩

/-- The machine `setupyess` builds, with a loaded memory.  Static data is zero. -/
def setupyess (u : Undetermined) (memory : Memory) : State where
  memory := memory
  registers := fun index => if IsRegister index then 0 else u.outside index
  CC := 0
  F := clearFregister
  D := clearDregister
  E := clearEregister
  M := clearMregister
  W := clearWregister
  forward := u.forward

/-- The machine after the writeback, memory and execute calls of a cycle: what decode reads. -/
def beforeDecode (s : State) : State := executeStage (memoryStage (writebackStage s).state)

theorem beforeDecode_stopping {s : State} (stopping : s.W.stat ≠ .saok) :
    beforeDecode s = executeStage (memoryStage s) := by
  rw [beforeDecode, writebackStage_of_ne stopping]

def cycle (s : State) : State := fetchStage (decodeStage (beforeDecode s))

/-- The variables of `main` around the loop.  `clockCount` is an `int`, and wraps as
other arithmetic does; `cycles` is no variable of the source: it counts the passes
without a bound. -/
structure Loop where
  state : State
  cycles : Nat
  clockCount : Word
  stop : Int
  hasdumped : Bool

def Loop.start (s : State) : Loop := ⟨s, 0, 0, 0, false⟩

def Loop.iteration (loop : Loop) : Loop :=
  let writeback := writebackStage loop.state
  { state := fetchStage (decodeStage (executeStage (memoryStage writeback.state)))
    cycles := loop.cycles + 1
    clockCount := loop.clockCount + 1
    stop := writeback.stop
    hasdumped := loop.hasdumped || writeback.dump }

/-- `while (stop != -1)`, for at most `fuel` passes. -/
def mainLoop : Nat → Loop → Option Loop
  | 0, loop => if loop.stop ≠ -1 then none else some loop
  | fuel + 1, loop => if loop.stop ≠ -1 then mainLoop fuel loop.iteration else some loop

/-! ## The loop as an iteration of `cycle` -/

/-- The state in which `writebackStage` returns `-1`. -/
def Stopping (s : State) : Prop := s.W.stat ≠ .saok

instance (s : State) : Decidable (Stopping s) := inferInstanceAs (Decidable (_ ≠ _))

/-- The first `count` cycles of the main loop are not the last one. -/
abbrev Runs (s : State) (count : Nat) : Prop := RunsFor cycle Stopping s count

/-- `writebackStage` returns `-1` in the cycle after `count` cycles, the last of the loop. -/
abbrev StopsAt (s : State) (count : Nat) : Prop := HaltsAt cycle Stopping s count

theorem iteration_stop (loop : Loop) :
    loop.iteration.stop = if Stopping loop.state then -1 else 1 := by
  simp only [Loop.iteration, writebackStage_stop, Stopping]
  split <;> simp_all

theorem mainLoop_of_stop {loop : Loop} (stopped : loop.stop = -1) (fuel : Nat) :
    mainLoop fuel loop = some loop := by
  cases fuel <;> simp [mainLoop, stopped]

/-- From a loop that goes on, the loop returns after the cycle in which the stages
stop it: that cycle is run to its end and counted. -/
theorem mainLoop_of_stopsAt {count : Nat} {loop : Loop} (going : loop.stop ≠ -1)
    (stops : StopsAt loop.state count) (extra : Nat) :
    ∃ last, mainLoop (count + 1 + extra) loop = some last ∧
      last.state = cycle^[count + 1] loop.state ∧
      last.cycles = loop.cycles + (count + 1) ∧
      last.clockCount = loop.clockCount + BitVec.ofNat 32 (count + 1) := by
  induction count generalizing loop with
  | zero =>
      have stopped : loop.iteration.stop = -1 := by
        rw [iteration_stop, if_pos (show Stopping loop.state from stops.2)]
      refine ⟨loop.iteration, ?_, rfl, rfl, rfl⟩
      rw [show 0 + 1 + extra = extra + 1 by omega, mainLoop, if_pos going,
        mainLoop_of_stop stopped]
  | succ count ih =>
      have running : ¬ Stopping loop.state := stops.1 0 (Nat.succ_pos count)
      have goesOn : loop.iteration.stop ≠ -1 := by
        rw [iteration_stop, if_neg running]
        decide
      have later : StopsAt loop.iteration.state count := by
        refine ⟨?_, stops.2⟩
        intro earlier below
        exact stops.1 (earlier + 1) (Nat.succ_lt_succ below)
      obtain ⟨last, result, state, cycles, clock⟩ := ih goesOn later
      refine ⟨last, ?_, ?_, ?_, ?_⟩
      · rw [show count + 1 + 1 + extra = (count + 1 + extra) + 1 by omega, mainLoop, if_pos going,
          result]
      · rw [state]
        rfl
      · rw [cycles]
        simp only [Loop.iteration]
        omega
      · rw [clock, BitVec.ofNat_add (count + 1) 1, BitVec.add_comm (BitVec.ofNat 32 (count + 1)),
          ← BitVec.add_assoc]
        rfl

theorem exists_stopsAt_of_mainLoop {fuel : Nat} {loop last : Loop} (going : loop.stop ≠ -1)
    (result : mainLoop fuel loop = some last) : ∃ count, StopsAt loop.state count := by
  induction fuel generalizing loop with
  | zero => simp [mainLoop, going] at result
  | succ fuel ih =>
      by_cases stopping : Stopping loop.state
      · exact ⟨0, RunsFor.zero, stopping⟩
      · have goesOn : loop.iteration.stop ≠ -1 := by
          rw [iteration_stop, if_neg stopping]
          decide
        rw [mainLoop, if_pos going] at result
        obtain ⟨count, runs, stops⟩ := ih goesOn result
        refine ⟨count + 1, fun earlier below => ?_, stops⟩
        cases earlier with
        | zero => exact stopping
        | succ earlier => exact runs earlier (Nat.lt_of_succ_lt_succ below)

theorem mainLoop_add {fuel : Nat} {loop last : Loop} (result : mainLoop fuel loop = some last)
    (extra : Nat) : mainLoop (fuel + extra) loop = some last := by
  induction fuel generalizing loop with
  | zero =>
      by_cases stopped : loop.stop = -1
      · rw [mainLoop_of_stop stopped] at result ⊢
        exact result
      · simp [mainLoop, stopped] at result
  | succ fuel ih =>
      by_cases stopped : loop.stop = -1
      · rw [mainLoop_of_stop stopped] at result ⊢
        exact result
      · rw [mainLoop, if_pos stopped] at result
        rw [show fuel + 1 + extra = (fuel + extra) + 1 by omega, mainLoop, if_pos stopped]
        exact ih result

/-- The loop entered with `s` returns `last`, with enough fuel. -/
def Exits (s : State) (last : Loop) : Prop := ∃ fuel, mainLoop fuel (Loop.start s) = some last

/-- When the loop returns, the machine has run one cycle past the state that stops
it, and the clock has counted every cycle, as far as an `int` goes. -/
theorem Exits.spec {s : State} {last : Loop} (exits : Exits s last) :
    ∃ count, StopsAt s count ∧ last.state = cycle^[count + 1] s ∧ last.cycles = count + 1 ∧
      last.clockCount = BitVec.ofNat 32 (count + 1) := by
  obtain ⟨fuel, result⟩ := exits
  have going : (Loop.start s).stop ≠ -1 := by simp [Loop.start]
  obtain ⟨count, stops⟩ := exists_stopsAt_of_mainLoop going result
  obtain ⟨other, otherResult, state, cycles, clock⟩ := mainLoop_of_stopsAt going stops fuel
  have same : mainLoop (fuel + (count + 1)) (Loop.start s) = some last := mainLoop_add result _
  rw [Nat.add_comm fuel, otherResult] at same
  obtain rfl := Option.some.inj same
  refine ⟨count, stops, state, cycles.trans ?_, clock.trans ?_⟩
  · exact Nat.zero_add _
  · exact BitVec.zero_add _

theorem exits_of_stopsAt {s : State} {count : Nat} (stops : StopsAt s count) :
    ∃ last, Exits s last := by
  obtain ⟨last, result, -⟩ := mainLoop_of_stopsAt
    (show (Loop.start s).stop ≠ -1 by simp [Loop.start])
    (show StopsAt (Loop.start s).state count from stops) 0
  exact ⟨last, _, result⟩

end Yess
