import Yess.MainLoop
import Yess.StateDump

/-!
# Output of the write-back stage

`writebackStage.c` prints: a message and three dumps when it stops the program on
an exception, the dumps that a `DUMP` instruction asks for otherwise.  What it
prints is kept as a list of pieces, so that a run can be compared with another
machine that has no pipeline registers to show.
-/

namespace Yess

open Lib.CString Lib.Iteration

/-- One call that prints, with what it shows of the program registers, of the
processor registers and of memory. -/
inductive Piece (Program Processor : Type) where
  | invalidInstruction
  | invalidAddress
  | programRegisters (registers : Program)
  | processorRegisters (processor : Processor)
  | memory (memory : Memory)

namespace Piece

variable {Program Program' Processor Processor' : Type}

def map (program : Program → Program') (processor : Processor → Processor') :
    Piece Program Processor → Piece Program' Processor'
  | invalidInstruction => invalidInstruction
  | invalidAddress => invalidAddress
  | programRegisters registers => programRegisters (program registers)
  | processorRegisters state => processorRegisters (processor state)
  | memory image => memory image

def text : Piece Registers State → Text
  | invalidInstruction => ascii "\n*** Invalid instruction ***\n"
  | invalidAddress => ascii "\n*** Invalid memory address ***\n"
  | programRegisters registers => dumpProgramRegisters registers
  | processorRegisters s => dumpProcessorRegisters s
  | memory image => dumpMemory image

end Piece

/-- What `writebackStage` prints for the instruction in `W`, of the given registers,
processor registers and memory. -/
def pieces {Program Processor : Type} (W : Wregister) (program : Program) (processor : Processor)
    (memory : Memory) : List (Piece Program Processor) :=
  if W.stat = .sins then
    [.invalidInstruction, .programRegisters program, .processorRegisters processor, .memory memory]
  else if W.stat = .sadr then
    [.invalidAddress, .programRegisters program, .processorRegisters processor, .memory memory]
  else if W.stat = .shlt then []
  else if W.icode = .dump then
    (if getBits 0 0 W.valE ≠ 0 then [.programRegisters program] else []) ++
      ((if getBits 1 1 W.valE ≠ 0 then [.processorRegisters processor] else []) ++
        if getBits 2 2 W.valE ≠ 0 then [.memory memory] else [])
  else []

/-- What a call of `writebackStage` prints; it prints before it writes the registers. -/
def writebackPrinted (s : State) : List (Piece Registers State) :=
  pieces s.W s.registers s s.memory

theorem isEmpty_append {Content : Type} (before after : List Content) :
    (before ++ after).isEmpty = (before.isEmpty && after.isEmpty) := by
  cases before with
  | nil => rfl
  | cons first rest => rfl

theorem isEmpty_ite_singleton {Content : Type} (asked : Prop) [Decidable asked]
    (content : Content) : (if asked then [content] else []).isEmpty = !decide asked := by
  by_cases holds : asked
  · rw [if_pos holds, decide_eq_true holds]
    rfl
  · rw [if_neg holds, decide_eq_false holds]
    rfl

/-- `*dump` is set exactly when something is printed. -/
theorem writebackStage_dump (s : State) :
    (writebackStage s).dump = !(writebackPrinted s).isEmpty := by
  unfold writebackStage writebackPrinted pieces
  cases s.W.stat with
  | sins => rfl
  | sadr => rfl
  | shlt => rfl
  | saok =>
      simp only [reduceCtorEq, if_false]
      by_cases isDump : s.W.icode = .dump
      · rw [if_pos isDump, isEmpty_append, isEmpty_append, isEmpty_ite_singleton,
          isEmpty_ite_singleton, isEmpty_ite_singleton]
        simp [isDump]
      · simp [isDump]

/-- The variables around the loop, and what has been printed. -/
structure PrintingLoop where
  loop : Loop
  printed : List (Piece Registers State)

def PrintingLoop.iteration (current : PrintingLoop) : PrintingLoop :=
  ⟨current.loop.iteration, current.printed ++ writebackPrinted current.loop.state⟩

/-- `while (stop != -1)` with its output, for at most `fuel` passes. -/
def printingLoop : Nat → PrintingLoop → Option PrintingLoop
  | 0, current => if current.loop.stop ≠ -1 then none else some current
  | fuel + 1, current =>
      if current.loop.stop ≠ -1 then printingLoop fuel current.iteration else some current

/-- The output of the first `count` cycles. -/
def printed (s : State) (count : Nat) : List (Piece Registers State) :=
  (List.range count).flatMap fun earlier => writebackPrinted (cycle^[earlier] s)

theorem printed_succ (s : State) (count : Nat) :
    printed s (count + 1) = printed s count ++ writebackPrinted (cycle^[count] s) := by
  unfold printed
  rw [List.range_succ, List.flatMap_append, List.flatMap_singleton]

/-- The loop has printed what its cycles print, and knows whether that is anything. -/
structure Prints (s : State) (current : PrintingLoop) : Prop where
  state : current.loop.state = cycle^[current.loop.cycles] s
  printed : current.printed = printed s current.loop.cycles
  hasdumped : current.loop.hasdumped = !current.printed.isEmpty

theorem Prints.start (s : State) : Prints s ⟨Loop.start s, []⟩ := ⟨rfl, rfl, rfl⟩

theorem Prints.iteration {s : State} {current : PrintingLoop} (prints : Prints s current) :
    Prints s current.iteration := by
  refine ⟨?_, ?_, ?_⟩
  · change cycle current.loop.state = cycle^[current.loop.cycles + 1] s
    rw [Function.iterate_succ_apply', prints.state]
  · change current.printed ++ writebackPrinted current.loop.state =
      Yess.printed s (current.loop.cycles + 1)
    rw [printed_succ, ← prints.printed, prints.state]
  · change (current.loop.hasdumped || (writebackStage current.loop.state).dump) =
      !(current.printed ++ writebackPrinted current.loop.state).isEmpty
    rw [prints.hasdumped, writebackStage_dump, isEmpty_append, Bool.not_and]

/-- The loop with output returns when the loop does, with the output of all its cycles. -/
theorem printingLoop_eq {s : State} {current : PrintingLoop} (prints : Prints s current)
    (fuel : Nat) :
    printingLoop fuel current =
      (mainLoop fuel current.loop).map fun last => ⟨last, printed s last.cycles⟩ := by
  induction fuel generalizing current with
  | zero =>
      rw [printingLoop, mainLoop]
      split
      · rfl
      · rw [Option.map_some, ← prints.printed]
  | succ fuel ih =>
      rw [printingLoop, mainLoop]
      split
      · exact ih prints.iteration
      · rw [Option.map_some, ← prints.printed]

theorem mainLoop_hasdumped {s : State} {current : PrintingLoop} (prints : Prints s current)
    {fuel : Nat} {last : Loop} (result : mainLoop fuel current.loop = some last) :
    last.hasdumped = !(printed s last.cycles).isEmpty := by
  induction fuel generalizing current with
  | zero =>
      rw [mainLoop] at result
      split at result
      · cases result
      · obtain rfl := Option.some.inj result
        rw [prints.hasdumped, prints.printed]
  | succ fuel ih =>
      rw [mainLoop] at result
      split at result
      · exact ih prints.iteration result
      · obtain rfl := Option.some.inj result
        rw [prints.hasdumped, prints.printed]

theorem Exits.hasdumped {s : State} {last : Loop} (exits : Exits s last) :
    last.hasdumped = !(printed s last.cycles).isEmpty := by
  obtain ⟨fuel, result⟩ := exits
  exact mainLoop_hasdumped (Prints.start s) result

end Yess
