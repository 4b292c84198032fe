import Mathlib.Logic.Function.Basic
import Mathlib.Data.List.Induction

/-!
# Writes to a file

A list of writes, in the order in which they are made, changes a file of cells.
What a cell holds afterwards is decided by the last write to it alone, so a reader
that knows the pending writes need not wait for them.
-/

namespace Yess.Lib.Writes

variable {ι α : Type*} [DecidableEq ι]

def applyWrites (file : ι → α) (writes : List (ι × α)) : ι → α :=
  writes.foldl (fun file write => Function.update file write.1 write.2) file

def lastWrite (key : ι) (writes : List (ι × α)) : Option α := writes.reverse.lookup key

theorem applyWrites_append (file : ι → α) (writes more : List (ι × α)) :
    applyWrites file (writes ++ more) = applyWrites (applyWrites file writes) more :=
  List.foldl_append

theorem lastWrite_append (key : ι) (writes more : List (ι × α)) :
    lastWrite key (writes ++ more) = (lastWrite key more).or (lastWrite key writes) := by
  rw [lastWrite, List.reverse_append, List.lookup_append]
  rfl

theorem lookup_cons_eq_ite (key other : ι) (value : α) (rest : List (ι × α)) :
    ((other, value) :: rest).lookup key = if key = other then some value else rest.lookup key := by
  rw [List.lookup_cons]
  by_cases same : key = other
  · rw [if_pos same, beq_iff_eq.mpr same]
  · rw [if_neg same, beq_eq_false_iff_ne.mpr same]

theorem lastWrite_concat (key : ι) (writes : List (ι × α)) (other : ι) (value : α) :
    lastWrite key (writes ++ [(other, value)]) =
      if key = other then some value else lastWrite key writes := by
  rw [lastWrite, List.reverse_concat, lookup_cons_eq_ite]
  rfl

/-- A cell holds what was last written to it, or else what it held before. -/
theorem applyWrites_apply (file : ι → α) (writes : List (ι × α)) (key : ι) :
    applyWrites file writes key = (lastWrite key writes).getD (file key) := by
  induction writes using List.reverseRecOn with
  | nil => rfl
  | append_singleton writes write ih =>
      obtain ⟨other, value⟩ := write
      rw [applyWrites_append, lastWrite_concat]
      by_cases same : key = other
      · rw [if_pos same, same]
        exact Function.update_self ..
      · rw [if_neg same, ← ih]
        exact Function.update_of_ne same ..

/-- A reader of the pending writes may start from a file that has some of them already. -/
theorem lastWrite_getD_applyWrites (file : ι → α) (writes more : List (ι × α)) (key : ι) :
    (lastWrite key (writes ++ more)).getD (applyWrites file writes key) =
      applyWrites file (writes ++ more) key := by
  rw [applyWrites_apply, applyWrites_apply, lastWrite_append]
  cases lastWrite key more with
  | some value => rfl
  | none => cases lastWrite key writes <;> rfl

end Yess.Lib.Writes
