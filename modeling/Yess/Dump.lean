import Yess.Memory
import Yess.Lib.CString

/-!
# Dumping memory

`dump.c`: the text that the options for a memory dump print, line by line, with
a star behind a line that the following lines repeat.
-/

namespace Yess

open Lib.CString

/-- The words of one line.  A word that cannot be read is only logged. -/
def buildLine (memory : Memory) (arrlen : Nat) (address : Int) : List Word :=
  (List.range arrlen).map fun i => (getWord memory ((address + (i : Nat)) * 4)).1

def areEqual (arr1 arr2 : List Word) : Bool := arr1 = arr2

def dumpLine (line : List Word) (address : Nat) : Text :=
  formatHex 3 (address * 4) ++ ascii ": " ++
    line.flatMap fun word => formatHex 8 word.toNat ++ [space]

/-- The variables of the loop of `dumpMem`, and the text printed so far. -/
structure DumpLoop where
  prevLine : List Word
  star : Bool
  printed : Text

/-- One line: a star for the first repetition, nothing for the others, or the line. -/
def dumpStep (memory : Memory) (wordsperline : Nat) (loop : DumpLoop) (address : Nat) : DumpLoop :=
  let currLine := buildLine memory wordsperline address
  if areEqual loop.prevLine currLine then
    { prevLine := currLine
      star := true
      printed := if loop.star then loop.printed else loop.printed ++ ascii "*" ++ [newline] }
  else
    { prevLine := currLine
      star := false
      printed := loop.printed ++ [newline] ++ dumpLine currLine address }

/-- The lines from `address` on; with a positive line length `MEMSIZE` is enough fuel. -/
def dumpLines (memory : Memory) (wordsperline : Nat) : Nat → Nat → DumpLoop → DumpLoop
  | 0, _, loop => loop
  | fuel + 1, address, loop =>
      if address < memSize then
        dumpLines memory wordsperline fuel (address + wordsperline)
          (dumpStep memory wordsperline loop address)
      else loop

def dumpMem (memory : Memory) (wordsperline : Nat) : Text :=
  let prevLine := buildLine memory wordsperline 0
  let first : DumpLoop := ⟨prevLine, false, dumpLine prevLine 0⟩
  (dumpLines memory wordsperline memSize wordsperline first).printed ++ [newline]

def dumpMemory (memory : Memory) : Text := dumpMem memory 8

def dumpMemoryImage (memory : Memory) : Text := dumpMem memory 1

theorem dumpLines_printed (memory : Memory) (wordsperline fuel address : Nat) (loop : DumpLoop) :
    ∃ more, (dumpLines memory wordsperline fuel address loop).printed = loop.printed ++ more := by
  induction fuel generalizing address loop with
  | zero => exact ⟨[], (List.append_nil _).symm⟩
  | succ fuel ih =>
      rw [dumpLines]
      split
      · obtain ⟨more, printed⟩ := ih (address + wordsperline)
          (dumpStep memory wordsperline loop address)
        have step : ∃ line, (dumpStep memory wordsperline loop address).printed =
            loop.printed ++ line := by
          unfold dumpStep
          dsimp only
          split
          · split
            · exact ⟨[], (List.append_nil _).symm⟩
            · exact ⟨_, List.append_assoc _ _ _⟩
          · exact ⟨_, List.append_assoc _ _ _⟩
        obtain ⟨line, step⟩ := step
        exact ⟨line ++ more, by rw [printed, step, List.append_assoc]⟩
      · exact ⟨[], (List.append_nil _).symm⟩

/-- A dump starts with its first address, in three digits. -/
theorem dumpMem_start (memory : Memory) (wordsperline : Nat) :
    ∃ more, dumpMem memory wordsperline = ascii "000: " ++ more := by
  obtain ⟨more, printed⟩ := dumpLines_printed memory wordsperline memSize wordsperline
    ⟨buildLine memory wordsperline 0, false, dumpLine (buildLine memory wordsperline 0) 0⟩
  have zero : formatHex 3 (0 * 4) ++ ascii ": " = ascii "000: " := by
    simp only [formatHex, Nat.zero_mul, Nat.digits_zero]
    rfl
  unfold dumpMem
  dsimp only
  rw [printed]
  dsimp only
  rw [dumpLine, zero, List.append_assoc, List.append_assoc]
  exact ⟨_, rfl⟩

end Yess
