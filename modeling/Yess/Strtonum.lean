import Yess.Tools
import Yess.Lib.CString

/-!
# Converting strings to numbers

`strtonum.c`, and the functions on strings of `tools.c`.
-/

namespace Yess

open Lib.CString

/-- `INT_MIN` and `INT_MAX` as the bounds that `strtoint` passes. -/
abbrev intBounds : Int × Int := (-2147483648, 2147483647)

/-- `strtonum_OBSD`: the number, or the error string.  The caller passes `errstrp`. -/
def strtonumOBSD (numstr : Text) (minval maxval : Int) (base : Nat) : Except String Int :=
  if minval > maxval then .error "invalid"
  else if ¬ (base = 10 ∨ base = 16) then .error "invalid"
  else
    let l := strtol numstr base
    if l.rest = numstr ∨ l.rest ≠ [] then .error "invalid"
    else if (l.value = longMin ∧ l.outOfRange) ∨ l.value < minval then .error "too small"
    else if (l.value = longMax ∧ l.outOfRange) ∨ l.value > maxval then .error "too large"
    else .ok l.value

def strtoint (nptr : Text) (base : Nat) : Int :=
  match strtonumOBSD nptr intBounds.1 intBounds.2 base with
  | .ok num => num
  | .error _ => -1

theorem strtoint_of_strtol {s : Text} {number : Nat} (nonempty : s ≠ [])
    (small : number ≤ 2147483647) (converted : strtol s 16 = ⟨number, [], false⟩) :
    strtoint s 16 = number := by
  have lower : ¬ (number : Int) < -2147483648 := by omega
  have upper : ¬ 2147483647 < (number : Int) := by omega
  unfold strtoint strtonumOBSD
  rw [converted]
  simp [nonempty.symm, lower, upper]

/-- A row of hexadecimal digits that fits is converted to the number it stands for. -/
theorem strtoint_hexValue {text : Text} (nonempty : text ≠ [])
    (digits : ∀ c ∈ text, isxdigit c = true) (small : hexValue text ≤ 2147483647) :
    strtoint text 16 = hexValue text := by
  refine strtoint_of_strtol nonempty small (strtol_hexValue nonempty digits ?_)
  simp only [longMax]
  omega

/-- The file name ends in the given extension, and in nothing behind a later dot. -/
def filenameEndsIn (filename : Text) (shortest : Nat) (extension : Text) : Bool :=
  if filename.length < shortest then false
  else
    match strrchr filename (ch '.') with
    | none => false
    | some p => p = extension

def validatefilename (filename : Text) : Bool := filenameEndsIn filename 3 (ascii ".yo")

end Yess
