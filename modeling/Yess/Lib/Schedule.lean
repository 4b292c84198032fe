import Mathlib.Algebra.BigOperators.Group.Finset.Basic
import Mathlib.Algebra.Order.BigOperators.Group.Finset
import Mathlib.Order.Monotone.Basic

/-!
# Schedules of items with gaps

Items enter a machine one after another, each at least one tick after the one
before it; `gap n` is the number of further ticks lost between item `n` and item
`n + 1`.
-/

namespace Yess.Lib.Schedule

variable {first : Nat} {gap : Nat → Nat}

/-- The tick at which an item enters, when item `0` enters at `first`. -/
def entry (first : Nat) (gap : Nat → Nat) : Nat → Nat
  | 0 => first
  | item + 1 => entry first gap item + 1 + gap item

theorem entry_strictMono : StrictMono (entry first gap) :=
  strictMono_nat_of_lt_succ fun item => by
    change entry first gap item < entry first gap item + 1 + gap item
    omega

/-- The tick at which an item enters counts the items before it and their gaps. -/
theorem entry_eq (item : Nat) :
    entry first gap item = first + item + ∑ before ∈ Finset.range item, gap before := by
  induction item with
  | zero => simp [entry]
  | succ item ih =>
      rw [entry, ih, Finset.sum_range_succ]
      omega

end Yess.Lib.Schedule
