import Yess.MainLoop

/-!
# Accesses to the register file

The subscripts of `registers[]` that the two accessors and the stages evaluate,
and exactly when they stay inside the eight entries.
-/

namespace Yess

open Lib.Iteration

/-! ## One call of an accessor -/

/-- A call of `getRegister` stays inside the array, and a bad id reads as `0`
without a subscript. -/
structure GetRegisterSafe (reg : Rregister) : Prop where
  inside : ∀ index, getRegisterIndex reg = some index → IsRegister index
  rejected : ¬ IsRegister reg →
    getRegisterIndex reg = none ∧ ∀ registers, getRegister registers reg = 0

/-- A call of `setRegister` stays inside the array, and a bad id changes nothing. -/
structure SetRegisterSafe (reg : Rregister) : Prop where
  inside : ∀ index, setRegisterIndex reg = some index → IsRegister index
  rejected : ¬ IsRegister reg →
    ∀ registers data, setRegister registers reg data = registers

/-- The range check of `getRegister` lets one id through that is no register. -/
theorem isRegister_of_passes {reg : Rregister} (passes : ¬ (reg < 0 ∨ reg > regSize))
    (notEight : reg ≠ regSize) : IsRegister reg :=
  ⟨Int.not_lt.mp fun below => passes (Or.inl below),
    lt_of_le_of_ne (Int.not_lt.mp fun above => passes (Or.inr above)) notEight⟩

theorem getRegisterIndex_isRegister_iff (reg : Rregister) :
    (∀ index, getRegisterIndex reg = some index → IsRegister index) ↔ reg ≠ regSize := by
  unfold getRegisterIndex
  constructor
  · rintro inside rfl
    exact absurd (inside regSize (by decide)) (by decide)
  · intro notEight index found
    split at found
    · exact nomatch found
    · case isFalse passes =>
        obtain rfl := Option.some.inj found
        exact isRegister_of_passes passes notEight

theorem getRegisterSafe_iff (reg : Rregister) : GetRegisterSafe reg ↔ reg ≠ regSize := by
  constructor
  · intro safe
    exact (getRegisterIndex_isRegister_iff reg).mp safe.inside
  · intro notEight
    refine ⟨(getRegisterIndex_isRegister_iff reg).mpr notEight, ?_⟩
    intro outside
    have refused : reg < 0 ∨ reg > regSize :=
      by_contra fun passes => outside (isRegister_of_passes passes notEight)
    have none : getRegisterIndex reg = none := if_pos refused
    refine ⟨none, ?_⟩
    intro registers
    simp only [getRegister, none]

theorem setRegisterSafe_iff (reg : Rregister) : SetRegisterSafe reg ↔ IsRegister reg := by
  constructor
  · intro safe
    exact safe.inside reg rfl
  · intro inside
    refine ⟨?_, fun outside => absurd inside outside⟩
    rintro index found
    obtain rfl := Option.some.inj found
    exact inside

/-! ## The accesses of one cycle -/

/-- The subscripts of `registers[]` evaluated in one cycle, in order. -/
def registerIndices (s : State) : List Int :=
  writebackIndices s ++ decodeIndices (beforeDecode s)

/-- Every subscript evaluated in the cycle names one of the eight registers. -/
def CycleSafe (s : State) : Prop := ∀ index ∈ registerIndices s, IsRegister index

/-- Write-back, unless it ends the program, is given two destinations that are registers. -/
def WritesRegisters (s : State) : Prop :=
  s.W.stat = .saok → IsRegister s.W.dstE ∧ IsRegister s.W.dstM

/-- Decode takes the id `8` from the register file for one of its operands. -/
def ReadsPastEnd (s : State) : Prop :=
  (¬ (s.D.icode = .call ∨ s.D.icode = .jxx) ∧ NotForwarded (getSrcA s.D) s.forward ∧
      getSrcA s.D = regSize) ∨
    (NotForwarded (getSrcB s.D) s.forward ∧ getSrcB s.D = regSize)

theorem writebackIndices_iff (s : State) :
    (∀ index ∈ writebackIndices s, IsRegister index) ↔ WritesRegisters s := by
  unfold writebackIndices WritesRegisters
  by_cases running : s.W.stat = .saok <;> simp [running, setRegisterIndex]

theorem decodeIndices_iff (s : State) :
    (∀ index ∈ decodeIndices s, IsRegister index) ↔ ¬ ReadsPastEnd s := by
  have read (reads : Prop) [Decidable reads] (src : Rregister) :
      (∀ index ∈ if reads then (getRegisterIndex src).toList else [], IsRegister index) ↔
        ¬ (reads ∧ src = regSize) := by
    by_cases holds : reads
    · simpa [holds] using getRegisterIndex_isRegister_iff src
    · simp [holds]
  unfold decodeIndices ReadsPastEnd
  simp only [List.forall_mem_append, read, not_or, and_assoc]

theorem cycleSafe_iff (s : State) :
    CycleSafe s ↔ WritesRegisters s ∧ ¬ ReadsPastEnd (beforeDecode s) := by
  unfold CycleSafe registerIndices
  rw [List.forall_mem_append, writebackIndices_iff, decodeIndices_iff]

/-- The bubble in W of the machine that `setupyess` builds writes to `RNONE`. -/
theorem not_cycleSafe_setupyess (u : Undetermined) (memory : Memory) :
    ¬ CycleSafe (setupyess u memory) := by
  rw [cycleSafe_iff]
  rintro ⟨writes, -⟩
  exact not_isRegister_rNone (writes rfl).1

/-- Exactly when the register file is accessed inside its eight entries, for every
id, every program and every cycle of its run: by `getRegister` for every id but `8`,
by `setRegister` for the ids `0` to `7` only, by a cycle when write-back has two
registers to write and decode does not take the id `8` from the file; and so never
by all cycles of a run, as the first one already fails. -/
theorem registers_safe_iff (u : Undetermined) (memory : Memory) (reg : Rregister) (count : Nat) :
    let s := cycle^[count] (setupyess u memory)
    (GetRegisterSafe reg ↔ reg ≠ regSize) ∧
      (SetRegisterSafe reg ↔ IsRegister reg) ∧
      (CycleSafe s ↔ WritesRegisters s ∧ ¬ ReadsPastEnd (beforeDecode s)) ∧
      ¬ ∀ earlier, Runs (setupyess u memory) earlier →
        CycleSafe (cycle^[earlier] (setupyess u memory)) := by
  intro s
  refine ⟨getRegisterSafe_iff reg, setRegisterSafe_iff reg, cycleSafe_iff s, fun safe => ?_⟩
  exact not_cycleSafe_setupyess u memory (safe 0 RunsFor.zero)

/-- `setRegister` stores to `registers[15]` for `RNONE`, in the first cycle of an
empty memory already, and `getRegister` reads `registers[8]`. -/
theorem registers_unsafe_initMemory :
    ¬ SetRegisterSafe rNone ∧ ¬ GetRegisterSafe 8 ∧
      ¬ CycleSafe (setupyess .zero initMemory) := by
  have eightOutside : ¬ IsRegister 8 := by decide
  refine ⟨?_, ?_, ?_⟩
  · intro safe
    exact not_isRegister_rNone (safe.inside rNone rfl)
  · intro safe
    exact eightOutside (safe.inside 8 rfl)
  · intro safe
    exact not_isRegister_rNone (safe rNone (by decide +kernel))

end Yess
