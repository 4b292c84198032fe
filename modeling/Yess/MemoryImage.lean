import Yess.Dump
import Yess.MemLoader

/-!
# Memory images

A memory image is printed with addresses of three digits and read with
addresses of four, so that no image is read back.
-/

namespace Yess

open Lib.CString MemLoader

/-- Under some file name, the image of the memory is accepted on zeroed memory and
loads the same words. -/
def RoundTrips (memory : Memory) : Prop :=
  ∃ fileName, (loadMemImage fileName (some (dumpMemoryImage memory)) initMemory).result = true ∧
    (loadMemImage fileName (some (dumpMemoryImage memory)) initMemory).memory = memory

theorem validateline_of_column {record : MemoryRecord} {line : Text}
    (column : get line 4 ≠ ch ':') : validateline record line = none := by
  unfold validateline
  rw [if_pos column, ite_self]

/-- The first line of a dump has its colon in column 3 and a space in column 4. -/
theorem loadMemImage_dumpMemoryImage (memory loaded : Memory) (fileName : Text) :
    (loadMemImage fileName (some (dumpMemoryImage memory)) loaded).result = false := by
  obtain ⟨more, text⟩ := dumpMem_start memory 1
  have oneLine : newline ∉ ascii "000: " := by decide
  obtain ⟨tail, others, lines⟩ := getlines_append oneLine (by decide) more
  have column : get (ascii "000: " ++ tail) 4 ≠ ch ':' := by
    change space ≠ ch ':'
    decide
  unfold loadMemImage
  split
  · rfl
  · dsimp only
    rw [dumpMemoryImage, text, lines, loadLines_rejected (validateline_of_column column)]

/-- No contents of memory round trip through a memory image. -/
theorem not_roundTrips (memory : Memory) : ¬ RoundTrips memory := by
  rintro ⟨fileName, accepted, -⟩
  rw [loadMemImage_dumpMemoryImage] at accepted
  exact Bool.false_ne_true accepted

/-- The image of cleared memory does not load, under any name of an image file. -/
theorem not_roundTrips_initMemory :
    validatememfilename (ascii "a.mem") = true ∧ ¬ RoundTrips initMemory :=
  ⟨by decide, fun ⟨fileName, accepted, _⟩ => Bool.false_ne_true
    ((loadMemImage_dumpMemoryImage initMemory initMemory fileName).symm.trans accepted)⟩

end Yess
