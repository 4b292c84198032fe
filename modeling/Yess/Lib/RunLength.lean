import Mathlib.Data.List.Basic

/-!
# Runs of equal items with positions

Items of one size stand one behind another.  A run of equal items is written as one
entry: the position of its first item, the item, and a star when the item is
repeated.  The writer compares each item with the one before it; the reader repeats
a starred item up to the position of the next entry, or up to the end.
-/

namespace Yess.Lib.RunLength

variable {α : Type*}

/-- One run: where it starts, its item, and whether the item is repeated. -/
structure Entry (α : Type*) where
  position : Nat
  value : α
  star : Bool
  deriving DecidableEq, Repr

def Entry.count (size : α → Nat) (entry : Entry α) (next : Nat) : Nat :=
  if entry.star then (next - entry.position) / size entry.value else 1

def nextPosition (total : Nat) : List (Entry α) → Nat
  | [] => total
  | entry :: _ => entry.position

/-- The items that the entries stand for, from `position` on.  Each entry has to start
where the one before it ends, and the last has to end at `total`. -/
def expand (size : α → Nat) (total : Nat) : Nat → List (Entry α) → Option (List α)
  | position, [] => if position = total then some [] else none
  | position, entry :: rest =>
      if entry.position = position then
        let count := entry.count size (nextPosition total rest)
        (expand size total (position + count * size entry.value) rest).map
          (List.replicate count entry.value ++ ·)
      else none

theorem expand_cons {size : α → Nat} {total count : Nat} {entry : Entry α}
    {rest : List (Entry α)} (counted : entry.count size (nextPosition total rest) = count) :
    expand size total entry.position (entry :: rest) =
      (expand size total (entry.position + count * size entry.value) rest).map
        (List.replicate count entry.value ++ ·) := by
  rw [expand, if_pos rfl, counted]

/-- An open run has `count` items up to `position`, and is starred when these are
more than one. -/
structure Open (unit position : Nat) (last : Entry α) (count : Nat) : Prop where
  position_eq : last.position + count * unit = position
  nonempty : 1 ≤ count
  single : last.star = false → count = 1

theorem Open.count_eq {size : α → Nat} {unit position count : Nat} {last : Entry α}
    (isOpen : Open unit position last count) (positive : 0 < unit)
    (sized : size last.value = unit) : last.count size position = count := by
  unfold Entry.count
  cases star : last.star with
  | false => rw [if_neg Bool.false_ne_true, isOpen.single star]
  | true =>
      rw [if_pos rfl, sized, ← isOpen.position_eq, Nat.add_sub_cancel_left,
        Nat.mul_div_cancel count positive]

section Writer

variable [DecidableEq α]

/-- The entries of the items from `position` on, behind the run `last` that is still
open; each item takes `unit` positions. -/
def runs (unit : Nat) : Nat → Entry α → List α → List (Entry α)
  | _, last, [] => [last]
  | position, last, item :: rest =>
      if last.value = item then runs unit (position + unit) { last with star := true } rest
      else last :: runs unit (position + unit) ⟨position, item, false⟩ rest

theorem runs_eq_cons (unit position : Nat) (last : Entry α) (items : List α) :
    ∃ star rest, runs unit position last items = ⟨last.position, last.value, star⟩ :: rest := by
  induction items generalizing position last with
  | nil => exact ⟨last.star, [], rfl⟩
  | cons item rest ih =>
      rw [runs]
      split
      · exact ih (position + unit) { last with star := true }
      · exact ⟨last.star, _, rfl⟩

/-- Expanding the entries gives back the open run and the items behind it. -/
theorem expand_runs {size : α → Nat} {unit position count : Nat} {last : Entry α}
    {items : List α} (positive : 0 < unit) (sized : ∀ item ∈ last.value :: items, size item = unit)
    (isOpen : Open unit position last count) :
    expand size (position + items.length * unit) last.position (runs unit position last items) =
      some (List.replicate count last.value ++ items) := by
  have sizedLast := sized last.value List.mem_cons_self
  have full := isOpen.count_eq positive sizedLast
  induction items generalizing position last count with
  | nil =>
      have total : position + ([] : List α).length * unit = position := by
        rw [List.length_nil, Nat.zero_mul, Nat.add_zero]
      have counted : last.count size (nextPosition position ([] : List (Entry α))) = count := full
      rw [total, runs, expand_cons counted, sizedLast, isOpen.position_eq, expand, if_pos rfl]
      rfl
  | cons item rest ih =>
      have total : position + (item :: rest).length * unit =
          position + unit + rest.length * unit := by
        rw [List.length_cons, Nat.succ_mul]
        omega
      rw [total, runs]
      split
      · case isTrue same =>
          have longer : Open unit (position + unit) { last with star := true } (count + 1) := by
            refine ⟨?_, Nat.le_add_left 1 count, nofun⟩
            rw [Nat.succ_mul, ← isOpen.position_eq]
            dsimp only
            omega
          have sizedRest : ∀ other ∈ last.value :: rest, size other = unit := by
            intro other member
            rcases List.mem_cons.mp member with rfl | member
            · exact sizedLast
            · exact sized other (List.mem_cons_of_mem _ (List.mem_cons_of_mem _ member))
          have later := @ih (position + unit) (count + 1) { last with star := true } sizedRest
            longer sizedLast (longer.count_eq positive sizedLast)
          rw [later, ← same, List.replicate_succ', List.append_assoc]
          rfl
      · case isFalse different =>
          have sizedRest : ∀ other ∈ item :: rest, size other = unit :=
            fun other member => sized other (List.mem_cons_of_mem _ member)
          have sizedItem := sizedRest item List.mem_cons_self
          have fresh : Open unit (position + unit) ⟨position, item, false⟩ 1 :=
            ⟨by rw [Nat.one_mul], Nat.le_refl 1, fun _ => rfl⟩
          have later := @ih (position + unit) 1 ⟨position, item, false⟩ sizedRest fresh sizedItem
            (fresh.count_eq positive sizedItem)
          obtain ⟨star, more, entries⟩ :=
            runs_eq_cons unit (position + unit) ⟨position, item, false⟩ rest
          have counted : last.count size (nextPosition (position + unit + rest.length * unit)
              (runs unit (position + unit) ⟨position, item, false⟩ rest)) = count := by
            rw [entries]
            exact full
          rw [expand_cons counted, sizedLast, isOpen.position_eq, later]
          rfl

/-- Items written from position zero on are read back. -/
theorem expand_runs_start {size : α → Nat} {unit : Nat} {first : α} {items : List α}
    (positive : 0 < unit) (sized : ∀ item ∈ first :: items, size item = unit) :
    expand size ((first :: items).length * unit) 0 (runs unit unit ⟨0, first, false⟩ items) =
      some (first :: items) := by
  have fresh : Open unit unit (⟨0, first, false⟩ : Entry α) 1 :=
    ⟨by rw [Nat.one_mul, Nat.zero_add], Nat.le_refl 1, fun _ => rfl⟩
  rw [List.length_cons, Nat.succ_mul, Nat.add_comm]
  exact expand_runs positive sized fresh

end Writer

end Yess.Lib.RunLength
