import Yess.Loader.Records
import Yess.Main
import Yess.Pipeline.Output

/-!
# From the command line to the output

The program `yess` as a whole, for the files that its loaders accept: it ends
exactly when the sequential machine does, and prints what that machine prints.
-/

namespace Yess

open Lib.CString Lib.Iteration

/-- The memory that the loader leaves which the flags ask for, if it accepts the file. -/
def fileMemory (buf : Buffer) (files : Files) (flags : Flags) : Option Memory :=
  let sourcefile := flags.sourcefile.getD []
  if flags.fflag then
    let loaded := load sourcefile (files sourcefile) buf initMemory
    if loaded.result then some loaded.memory else none
  else
    let image := MemLoader.loadMemImage sourcefile (files sourcefile) initMemory
    if image.result then some image.memory else none

theorem load_printed {fileName : Text} {file : Option Text} {buf : Buffer} {memory : Memory}
    (accepted : (load fileName file buf memory).result = true) :
    (load fileName file buf memory).printed = [] := by
  cases file with
  | none =>
      unfold load at accepted
      split at accepted <;> exact nomatch accepted
  | some text =>
      obtain ⟨validName, s, lines⟩ := exists_of_load accepted
      rw [load_of_ok validName lines]

namespace MemLoader

theorem loadLines_printed {memory : Memory} {record : MemoryRecord} {lines : List Text}
    (accepted : (loadLines memory record lines).result = true) :
    (loadLines memory record lines).printed = [] := by
  fun_induction loadLines memory record lines with
  | case1 => rfl
  | case2 => exact nomatch accepted
  | case3 => rfl
  | case4 => rfl
  | case5 => rfl
  | case6 memory record line rest memaddress starline valid data read repeated stored put noError
      ih =>
      exact ih accepted

theorem loadMemImage_printed {fileName : Text} {file : Option Text} {memory : Memory}
    (accepted : (loadMemImage fileName file memory).result = true) :
    (loadMemImage fileName file memory).printed = [] := by
  unfold loadMemImage at accepted ⊢
  split
  · rfl
  · case isFalse validName =>
      rw [if_neg validName] at accepted
      cases file with
      | none => rfl
      | some text => exact loadLines_printed accepted

end MemLoader

theorem iflag_of_parseOptions {options : List Opt} {operands : List Text} {flags : Flags}
    (accepted : parseOptions options operands = some flags) : flags.iflag = !flags.fflag := by
  obtain ⟨-, ⟨-, -, apart⟩, file, rfl⟩ := of_parseOptions accepted
  rw [Ne, sourcefile_eq_none_iff] at file
  change options.any Opt.isI = !options.any Opt.isF
  change ¬ (!options.any Opt.isF && !options.any Opt.isI) = true at file
  cases object : options.any Opt.isF with
  | true =>
      rw [Bool.not_true, Bool.eq_false_iff]
      exact fun image => apart ⟨image, Or.inl object⟩
  | false =>
      rw [object] at file
      simpa using file

/-- The program behind its options and its loader is the main loop. -/
theorem main_eq_runProgram {buf : Buffer} {files : Files} {options : List Opt}
    {operands : List Text} {flags : Flags} {memory : Memory}
    (accepted : parseOptions options operands = some flags) (noImage : flags.mflag = false)
    (loads : fileMemory buf files flags = some memory) (fuel : Nat) (u : Undetermined) :
    main fuel u buf files options operands = runProgram fuel u memory flags [] := by
  have iflag := iflag_of_parseOptions accepted
  unfold main
  rw [accepted]
  unfold fileMemory at loads
  dsimp only at loads ⊢
  rw [noImage, iflag]
  cases object : flags.fflag with
  | true =>
      rw [object, if_pos rfl] at loads
      obtain ⟨result, rfl⟩ := Option.ite_some_none_eq_some.mp loads
      have printed := load_printed result
      simp [result, printed]
  | false =>
      rw [object, if_neg Bool.false_ne_true] at loads
      obtain ⟨result, rfl⟩ := Option.ite_some_none_eq_some.mp loads
      have printed := MemLoader.loadMemImage_printed result
      simp [result, printed]

/-- How a program ends that the sequential machine leaves at instruction number `index`:
with status 0, and with the output of that machine.  Behind it stands the final dump, if
it is asked for and nothing was printed, of a machine with the registers and the memory
of the sequential one, and the number of clock cycles. -/
structure RunsAs (memory : Memory) (flags : Flags) (index : Nat) (outcome : Outcome) : Prop where
  status : outcome.status = 0
  stdout : ∃ (shown : List (Piece Registers State)) (final : State),
    shown.map Piece.shown = seqPrinted memory (index + 1) ∧
    Agree final.registers (seqAt memory index).registers ∧
    final.memory = (seqAt memory index).memory ∧
    outcome.stdout = shown.flatMap Piece.text ++
      ((if (flags.sflag || decide (flags.verbosity > 0)) &&
          (seqPrinted memory (index + 1)).isEmpty then dumpState final else []) ++
        totalClockCycles (BitVec.ofNat 32 (entryTime memory index + 3)))

/-- A run of the loop, as the outcome of the program. -/
theorem runsAs_of_exits {u : Undetermined} {memory : Memory} (well : WellBehaved memory)
    {last : Loop} (exits : Exits (setupyess u memory) last) (flags : Flags) :
    ∃ index, SeqStopsAt memory index ∧ RunsAs memory flags index
      ⟨0, (printed (setupyess u memory) last.cycles).flatMap Piece.text ++
        (finalDump flags last ++ totalClockCycles last.clockCount)⟩ := by
  obtain ⟨index, stops, -, registers, memoryEq, -⟩ := final_of_exits well u exits
  obtain ⟨count, stopsAt, -, cycles, clock⟩ := exits.spec
  obtain ⟨other, otherStops, output⟩ := printed_of_stopsAt well u stopsAt
  obtain rfl := otherStops.unique stops
  rw [← cycles] at output
  have hasdumped : last.hasdumped = !(seqPrinted memory (other + 1)).isEmpty := by
    rw [exits.hasdumped, ← output, List.isEmpty_map]
  have number : last.clockCount = BitVec.ofNat 32 (entryTime memory other + 3) := by
    rw [clock, stopsAt.unique (stopsAt_entryTime well u stops)]
  refine ⟨other, stops, rfl, _, last.state, output, registers, memoryEq, ?_⟩
  rw [number, finalDump, hasdumped, Bool.not_not]
  cases (seqPrinted memory (other + 1)).isEmpty <;> simp

/-- The program runs a well-behaved file as the sequential machine does: whenever it
ends, that machine stops, and the output is the one of that machine; and it ends if that
machine stops. -/
theorem main_refines_seq (u : Undetermined) (buf : Buffer) (files : Files) (options : List Opt)
    (operands : List Text) (flags : Flags) (memory : Memory)
    (accepted : parseOptions options operands = some flags) (noImage : flags.mflag = false)
    (loads : fileMemory buf files flags = some memory) (well : WellBehaved memory) :
    (∀ fuel outcome, main fuel u buf files options operands = some outcome →
        ∃ index, SeqStopsAt memory index ∧ RunsAs memory flags index outcome) ∧
      ∀ index, SeqStopsAt memory index →
        ∃ fuel outcome, main fuel u buf files options operands = some outcome := by
  have start : Prints (setupyess u memory) ⟨Loop.start (setupyess u memory), []⟩ := Prints.start _
  constructor
  · intro fuel outcome result
    rw [main_eq_runProgram accepted noImage loads, runProgram, printingLoop_eq start,
      Option.map_map] at result
    obtain ⟨last, exits, rfl⟩ := Option.map_eq_some_iff.mp result
    exact runsAs_of_exits well ⟨fuel, exits⟩ flags
  · intro index stops
    obtain ⟨last, fuel, result⟩ := exits_of_stopsAt (stopsAt_entryTime well u stops)
    refine ⟨fuel, ?_⟩
    rw [main_eq_runProgram accepted noImage loads, runProgram, printingLoop_eq start, result]
    exact ⟨_, rfl⟩

theorem fileMemory_fileText {buf : Buffer} {files : Files} {flags : Flags} {name : Text}
    (object : flags.fflag = true) (named : flags.sourcefile = some name)
    (validName : validatefilename name = true) {records : List Record}
    (inOrder : InOrder (-1) records) (terminated : Bool)
    (file : files name = some (fileText terminated records)) :
    fileMemory buf files flags = some (putRecords initMemory records) := by
  have fromStart : InOrder (LoadState.start buf initMemory).prevaddr records := inOrder
  obtain ⟨final, lines, memory⟩ := loadLines_fileText fromStart terminated
  have loaded := load_of_ok validName lines
  unfold fileMemory
  dsimp only
  rw [if_pos object, named, Option.getD_some, file, loaded, memory, if_pos rfl]
  rfl

/-- A comment, then a `DUMP` of everything and a `halt`. -/
def dumpAndHalt : List Record :=
  [.comment (commentRecord (ascii " # dump")),
    .data (dataRecord 0 [0xC0, 0x07, 0, 0, 0, 0] (ascii " DUMP 7"))]

theorem dumpAndHalt_stopsAt : SeqStopsAt (putRecords initMemory dumpAndHalt) 1 := by
  decide +kernel

theorem dumpAndHalt_wellBehaved : WellBehaved (putRecords initMemory dumpAndHalt) :=
  wellBehaved_of_stopsAt dumpAndHalt_stopsAt (by decide +kernel) (by decide +kernel)
    (by decide +kernel)

/-- `yess -s -f a.yo` on the text of this program. -/
theorem main_refines_seq_dumpAndHalt :
    (∀ fuel outcome,
      main fuel .zero (fun _ => nul) (fun _ => some (fileText true dumpAndHalt))
          [.s, .f (ascii "a.yo")] [] = some outcome →
        ∃ index, SeqStopsAt (putRecords initMemory dumpAndHalt) index ∧
          RunsAs (putRecords initMemory dumpAndHalt) (Flags.of [.s, .f (ascii "a.yo")]) index
            outcome) ∧
      ∃ fuel outcome,
        main fuel .zero (fun _ => nul) (fun _ => some (fileText true dumpAndHalt))
          [.s, .f (ascii "a.yo")] [] = some outcome :=
  have refines := main_refines_seq .zero (fun _ => nul)
    (fun _ => some (fileText true dumpAndHalt)) [.s, .f (ascii "a.yo")] []
    (Flags.of [.s, .f (ascii "a.yo")]) (putRecords initMemory dumpAndHalt) (by decide +kernel) rfl
    (@fileMemory_fileText _ _ _ (ascii "a.yo") rfl rfl (by decide) _ (by decide) true rfl)
    dumpAndHalt_wellBehaved
  ⟨refines.1, refines.2 1 dumpAndHalt_stopsAt⟩

end Yess
