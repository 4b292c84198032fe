import Yess.Isa.LoadMem
import Yess.Isa.Lockstep
import Yess.Pipeline.Program

/-!
# The simulator and the pipeline agree

A program that both machines know and that ends in a `halt`: the simulator and the
main loop of the pipeline end with the same registers and the same memory.
-/

namespace Yess.Isa

open Lib.CString Lib.Iteration

/-- An operation before instruction number `index` has set the condition codes; before
the first one, the two machines start with different ones. -/
def FlagsKnown (memory : Memory) (index : Nat) : Prop :=
  ∃ earlier < index, (seqAt memory earlier).instruction.icode = .opl

instance (memory : Memory) (index : Nat) : Decidable (FlagsKnown memory index) :=
  inferInstanceAs (Decidable (∃ earlier < index, _))

def CommonBelow (memory : Memory) (len index : Nat) : Prop :=
  ∀ earlier < index, Common (FlagsKnown memory earlier) len (seqAt memory earlier)

instance (memory : Memory) (len index : Nat) : Decidable (CommonBelow memory len index) :=
  inferInstanceAs (Decidable (∀ earlier < index, _))

theorem related_start {m : Mem} {memory : Memory} (same : SameBytes m memory) :
    Related (FlagsKnown memory 0) (seqAt memory 0) (newState m) :=
  ⟨rfl, holds_initReg, same, fun ⟨_, below, _⟩ => absurd below (Nat.not_lt_zero _)⟩

/-- The flags are known behind an instruction if they were before it or it sets them. -/
theorem FlagsKnown.succ_iff {memory : Memory} {index : Nat} :
    FlagsKnown memory (index + 1) ↔
      FlagsKnown memory index ∨ (seqAt memory index).instruction.icode = .opl := by
  unfold FlagsKnown
  constructor
  · rintro ⟨earlier, below, opl⟩
    rcases Nat.lt_succ_iff_lt_or_eq.mp below with lower | rfl
    · exact Or.inl ⟨earlier, lower, opl⟩
    · exact Or.inr opl
  · rintro (⟨earlier, below, opl⟩ | opl)
    · exact ⟨earlier, Nat.lt_succ_of_lt below, opl⟩
    · exact ⟨index, Nat.lt_succ_self index, opl⟩

theorem runSteps_lockstep {memory : Memory} {index : Nat} (reached : Reaches memory index)
    {len : Nat} (common : CommonBelow memory len index) {done left : Nat}
    (split : done + left = index) {s : State} (sized : s.m.len = len)
    (related : Related (FlagsKnown memory done) (seqAt memory done) s) (extra : Nat) :
    ∃ last, runSteps (left + extra) ⟨done, s, .aok⟩ = runSteps extra ⟨index, last, .aok⟩ ∧
      last.m.len = len ∧ Related (FlagsKnown memory index) (seqAt memory index) last := by
  induction left generalizing done s with
  | zero =>
      obtain rfl : done = index := split
      rw [Nat.zero_add]
      exact ⟨s, rfl, sized, related⟩
  | succ left ih =>
      have below : done < index := by omega
      obtain ⟨next, step, nextSized, nextRelated⟩ :=
        related.step (sized ▸ common done below) (reached.not_stops below)
      rw [← FlagsKnown.succ_iff, ← seqAt_succ] at nextRelated
      have rest : done + 1 + left = index := by omega
      obtain ⟨last, runs, lastSized, lastRelated⟩ := ih rest (nextSized.trans sized) nextRelated
      refine ⟨last, ?_, lastSized, lastRelated⟩
      rw [show left + 1 + extra = left + extra + 1 by omega, runSteps, if_pos rfl]
      dsimp only
      rw [step]
      exact runs

theorem stepState_halt {known : Prop} {σ : SeqState} {s : State} (related : Related known σ s)
    (halts : σ.status = .shlt) (inside : σ.pc.toInt < s.m.len) : stepState s = (s, .hlt) := by
  obtain ⟨first, code⟩ := SeqState.of_status_shlt halts
  have valid : instructionValid σ.instruction.icode = true := by rw [code]; rfl
  have bytes : 0 ≤ σ.pc.toInt ∧ σ.pc.toInt + instructionLength σ.instruction.icode ≤ s.m.len := by
    have one : instructionLength σ.instruction.icode = 1 := by rw [code]; rfl
    have lower := (not_not.mp first).1
    omega
  obtain ⟨byte0, read, fetched⟩ :=
    fetchedAs related.memory valid (by rw [SeqState.instruction] at code; rw [code]; decide)
      bytes
  have hi0 := fetched.hi0
  change _ = itype σ.instruction.icode at hi0
  unfold stepState
  rw [related.pc, read]
  dsimp only
  unfold switch
  rw [hi0, code]
  rfl

/-- A step of the simulator, or more, makes the steps of the sequential machine. -/
theorem yis_lockstep {memory : Memory} {m : Mem} {index : Nat} (same : SameBytes m memory)
    (reached : Reaches memory index) (common : CommonBelow memory m.len index) (extra : Nat) :
    ∃ last, yis (index + extra) m = runSteps extra ⟨index, last, .aok⟩ ∧ last.m.len = m.len ∧
      Related (FlagsKnown memory index) (seqAt memory index) last :=
  runSteps_lockstep reached common (Nat.zero_add index) rfl (related_start same) extra

/-- How the simulator ends when the pipeline ends in the state `final`, and had the
condition codes `CC` before its last cycle; `known` tells that they have been set. -/
structure EndsAs (run : Run) (steps : Nat) (known : Prop) (final : Yess.State) (CC : Word) :
    Prop where
  halted : run.e = .hlt
  steps : run.step = steps
  registers : ∀ place : Fin 8, getRegVal run.s.r place.val = final.registers place.val
  memory : SameBytes run.s.m final.memory
  cc : known → SameCC run.s.cc CC

/-- The simulator ends behind the `halt` at which the sequential machine stops. -/
theorem yis_halts {memory : Memory} {m : Mem} {index : Nat} (same : SameBytes m memory)
    (stops : SeqStopsAt memory index) (halts : (seqAt memory index).status = .shlt)
    (inside : (seqAt memory index).pc.toInt < m.len) (common : CommonBelow memory m.len index)
    {maxSteps : Nat} (enough : index < maxSteps) :
    ∃ last, yis maxSteps m = ⟨index + 1, last, .hlt⟩ ∧
      Related (FlagsKnown memory index) (seqAt memory index) last := by
  obtain ⟨extra, rfl⟩ := Nat.exists_eq_add_of_lt enough
  obtain ⟨last, runs, sized, related⟩ := yis_lockstep same stops.1 common (extra + 1)
  refine ⟨last, ?_, related⟩
  have final := stepState_halt related halts (sized ▸ inside)
  rw [Nat.add_assoc, runs, runSteps, if_pos rfl]
  dsimp only
  rw [final]
  cases extra with
  | zero => rfl
  | succ extra => rfl

theorem Related.getRegVal {known : Prop} {σ : SeqState} {s : State} (related : Related known σ s)
    (place : Fin 8) : getRegVal s.r place.val = σ.registers place := by
  have isRegister : IsRegister place.val := ⟨Int.natCast_nonneg _, Int.ofNat_lt.mpr place.isLt⟩
  exact (related.registers.get place.val).trans (dif_pos isRegister)

/-! ## Files -/

/-- On an object file whose program is well behaved, known to both machines and ends in a
`halt`, the pipeline and the simulator both end, with the same registers, the same
memory and, if the program has set them, the same condition codes. -/
theorem yis_agrees (u : Undetermined) (buf : Buffer) (name : Text)
    (validName : validatefilename name = true) (records : List Record)
    (inOrder : InOrder (-1) records) (short : ∀ r ∈ records, r.line.length + 1 < lineLen)
    (nonempty : byteCount records ≠ 0) (terminated : Bool) (index maxSteps : Nat)
    (well : WellBehaved (putRecords initMemory records))
    (stops : SeqStopsAt (putRecords initMemory records) index)
    (halts : (seqAt (putRecords initMemory records) index).status = .shlt)
    (inside : (seqAt (putRecords initMemory records) index).pc.toInt < memSize)
    (common : CommonBelow (putRecords initMemory records) memSize index)
    (enough : index < maxSteps) :
    let start := setupyess u
      (load name (some (fileText terminated records)) buf initMemory).memory
    ∃ run last, main maxSteps (fileText terminated records) = some run ∧ Exits start last ∧
      EndsAs run (index + 1) (FlagsKnown (putRecords initMemory records) index) last.state
        (cycle^[last.cycles - 1] start).CC := by
  have fromStart : InOrder (LoadState.start buf initMemory).prevaddr records := inOrder
  obtain ⟨loadState, lines, memory⟩ := loadLines_fileText fromStart terminated
  obtain ⟨m, loaded, len, same⟩ := loadMem_fileText short terminated
  obtain ⟨final, run, related⟩ :=
    yis_halts same stops halts (len ▸ inside) (len ▸ common) enough
  obtain ⟨last, exits⟩ := exits_of_stopsAt (stopsAt_entryTime well u stops)
  obtain ⟨other, otherStops, -, registers, memoryEq, CC⟩ := final_of_exits well u exits
  obtain rfl := stops.unique otherStops
  have sameStart : (load name (some (fileText terminated records)) buf initMemory).memory =
      putRecords initMemory records := by
    rw [load_of_ok validName lines]
    exact memory
  rw [sameStart]
  refine ⟨⟨index + 1, final, .hlt⟩, last, ?_, exits, rfl, rfl, fun place => ?_, ?_, ?_⟩
  · rw [main, loaded, ← run]
    exact if_neg nonempty
  · rw [registers place]
    exact related.getRegVal place
  · rw [memoryEq]
    exact related.memory
  · intro known
    have code := (SeqState.of_status_shlt halts).2
    rw [CC, SeqState.executed_CC, code, if_neg (by decide)]
    exact related.cc known

/-- A program that doubles a number on the stack: `irmovl $0x100,%esp`, `pushl %esp`,
`popl %ecx`, `addl %ecx,%ecx`, `pushl %ecx`, `halt`. -/
def doubled : List Record :=
  [.data (dataRecord 0 [0x30, 0xF4, 0x00, 0x01, 0x00, 0x00] (ascii " irmovl $0x100,%esp")),
    .data (dataRecord 6 [0xA0, 0x4F, 0xB0, 0x1F] (ascii " pushl %esp, popl %ecx")),
    .data (dataRecord 10 [0x60, 0x11, 0xA0, 0x1F, 0x00] (ascii " addl, pushl %ecx, halt"))]

theorem doubled_stopsAt : SeqStopsAt (putRecords initMemory doubled) 5 := by decide +kernel

theorem doubled_wellBehaved : WellBehaved (putRecords initMemory doubled) :=
  wellBehaved_of_stopsAt doubled_stopsAt (by decide +kernel) (by decide +kernel)
    (by decide +kernel)

theorem doubled_common : CommonBelow (putRecords initMemory doubled) memSize 5 := by
  decide +kernel

/-- Both programs on this file. -/
theorem yis_agrees_doubled :
    let start := setupyess .zero
      (load (ascii "a.yo") (some (fileText true doubled)) (fun _ => nul) initMemory).memory
    ∃ run last, main 10000 (fileText true doubled) = some run ∧ Exits start last ∧
      EndsAs run 6 (FlagsKnown (putRecords initMemory doubled) 5) last.state
        (cycle^[last.cycles - 1] start).CC :=
  yis_agrees .zero (fun _ => nul) (ascii "a.yo") (by decide) doubled (by decide) (by decide)
    (by decide) true 5 10000 doubled_wellBehaved doubled_stopsAt (by decide +kernel)
    (by decide +kernel) doubled_common (by decide)

/-! ## Cycles -/

/-- In every cycle, the registers of the pipeline are the ones of the simulator after as
many steps as instructions have left W. -/
theorem yis_registers (u : Undetermined) {memory : Memory} {m : Mem} (well : WellBehaved memory)
    (same : SameBytes m memory)
    (common : ∀ index, Reaches memory index → CommonBelow memory m.len index) {count : Nat}
    (runs : Runs (setupyess u memory) count) :
    let t := traceAt u memory count
    (yis t.retired m).e = .aok ∧ (yis t.retired m).step = t.retired ∧
      ∀ place : Fin 8, getRegVal (yis t.retired m).s.r place.val = t.state.registers place.val := by
  intro t
  obtain ⟨index, stored, executed, rear, -, -, reached⟩ := (phase_of_runs well u runs).rear
  have same_index : t.retired = index := rear.retired_of
  obtain ⟨last, run, -, related⟩ := yis_lockstep same reached (common index reached) 0
  rw [Nat.add_zero, runSteps] at run
  rw [same_index, run]
  exact ⟨rfl, rfl, fun place => (related.getRegVal place).trans (rear.registers place).symm⟩

/-- The same program, in the first five cycles. -/
theorem yis_registers_doubled :
    let memory := putRecords initMemory doubled
    let m : Mem := ⟨memSize, Lib.ByteStore.load (bytesOf memory)⟩
    let t := traceAt .zero memory 5
    (yis t.retired m).e = .aok ∧ (yis t.retired m).step = t.retired ∧
      ∀ place : Fin 8, getRegVal (yis t.retired m).s.r place.val = t.state.registers place.val :=
  yis_registers .zero doubled_wellBehaved ⟨by decide, fun _ _ => rfl⟩
    (fun _ reached earlier below => doubled_common earlier
      (Nat.lt_of_lt_of_le below (doubled_stopsAt.le_of_runsFor reached)))
    (by decide +kernel)

end Yess.Isa
