import Mathlib.Data.List.Basic

/-!
# Deterministic machines with replies

A machine answers each command with a reply and a next state.  A function from
the states of one machine to the states of another that commutes with every
command makes the two machines give the same replies on every command sequence.
-/

namespace Yess.Lib.Mealy

variable {State Abstract Command Reply : Type*}

/-- The replies to a command sequence and the state it ends in. -/
def run (step : State → Command → Reply × State) : State → List Command → List Reply × State
  | state, [] => ([], state)
  | state, command :: rest =>
      let reply := step state command
      let after := run step reply.2 rest
      (reply.1 :: after.1, after.2)

/-- `view` turns every step of the concrete machine into the step of the abstract one. -/
def Refines (concrete : State → Command → Reply × State)
    (abstract : Abstract → Command → Reply × Abstract) (view : State → Abstract) : Prop :=
  ∀ state command,
    abstract (view state) command =
      ((concrete state command).1, view (concrete state command).2)

/-- A step-by-step view is a run-by-run view. -/
theorem Refines.run_eq {concrete : State → Command → Reply × State}
    {abstract : Abstract → Command → Reply × Abstract} {view : State → Abstract}
    (refines : Refines concrete abstract view) (state : State) (commands : List Command) :
    run abstract (view state) commands =
      ((run concrete state commands).1, view (run concrete state commands).2) := by
  induction commands generalizing state with
  | nil => rfl
  | cons command rest ih =>
      simp only [run, refines state command, ih]

end Yess.Lib.Mealy
