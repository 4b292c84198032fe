import Yess.Tools

/-!
# Program registers and condition codes

`registers.c`.  The array `registers[]` has eight words, but neither accessor
keeps every other subscript away from it: `getRegister` lets the id `8` through,
and the range check of `setRegister` has an empty body.  The register file is
therefore the row of cells that a subscript of `registers[]` can name.  Cells
`0` to `7` are the array; the others lie outside it, and no other object of the
model lives there.
-/

namespace Yess

/-- `rregister`: a program register id, a C `int`. -/
abbrev Rregister := Int

abbrev regSize : Int := 8

abbrev rEsp : Rregister := 4

abbrev rNone : Rregister := 0xf

/-- The cells a subscript of `registers[]` can name. -/
abbrev Registers := Int → Word

/-- The subscript of `registers[]` that `getRegister` evaluates, if it gets that far. -/
def getRegisterIndex (reg : Rregister) : Option Int :=
  if reg < 0 ∨ reg > regSize then none else some reg

/-- The value in a register, or `0` for an id the range check rejects. -/
def getRegister (registers : Registers) (reg : Rregister) : Word :=
  match getRegisterIndex reg with
  | none => 0
  | some index => registers index

/-- The subscript of `registers[]` that `setRegister` evaluates.  The range check
only logs, and only in a debug build, so the store is always reached. -/
def setRegisterIndex (reg : Rregister) : Option Int := some reg

def setRegister (registers : Registers) (reg : Rregister) (data : Word) : Registers :=
  match setRegisterIndex reg with
  | none => registers
  | some index => Function.update registers index data

/-! ## Condition codes -/

/-- `ZF`: bit 2 of the CC. -/
abbrev zf : Int := 2

/-- `SF`: bit 1 of the CC. -/
abbrev sf : Int := 1

/-- `OF`: bit 0 of the CC. -/
abbrev of : Int := 0

def clearCC : Word := 0

/-- Set one condition code; a bad bit number is only logged. -/
def setCC (bitNumber : Int) (value : Int) (CC : Word) : Word :=
  if bitNumber = zf ∨ bitNumber = sf ∨ bitNumber = of then assignOneBit bitNumber value CC else CC

/-- One condition code, or `0` for a bad bit number. -/
def getCC (bitNumber : Int) (CC : Word) : Word :=
  if bitNumber = zf ∨ bitNumber = sf ∨ bitNumber = of then getBits bitNumber bitNumber CC else 0

/-! ## What the accessors do to the eight registers -/

def IsRegister (index : Int) : Prop := 0 ≤ index ∧ index < regSize

instance (index : Int) : Decidable (IsRegister index) := inferInstanceAs (Decidable (_ ∧ _))

theorem not_isRegister_rNone : ¬ IsRegister rNone := by decide

theorem ne_rNone_of_isRegister {reg : Rregister} (inside : IsRegister reg) : reg ≠ rNone := by
  rintro rfl
  exact not_isRegister_rNone inside

@[simp] theorem setRegister_eq (registers : Registers) (reg : Rregister) (data : Word) :
    setRegister registers reg data = Function.update registers reg data := rfl

theorem getRegister_of_isRegister {reg : Rregister} (inside : IsRegister reg)
    (registers : Registers) : getRegister registers reg = registers reg := by
  obtain ⟨lower, upper⟩ := inside
  have passes : ¬ (reg < 0 ∨ reg > regSize) := by
    rintro (below | above)
    · exact absurd lower (Int.not_le.mpr below)
    · exact absurd upper (Int.not_lt.mpr (Int.le_of_lt above))
  simp [getRegister, getRegisterIndex, passes]

end Yess
