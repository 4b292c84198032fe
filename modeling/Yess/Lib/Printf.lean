import Mathlib.Data.Nat.Digits.Lemmas
import Yess.Lib.CString

/-!
# Printing by a format string

`printf` with the conversions `%0Nx`, `%d` and `%%`.  A text that is printed by a
format with fixed columns can be taken apart again: when every number fits its
column, the text decides the numbers and where it ends.
-/

namespace Yess.Lib.Printf

open CString

/-- A character of the output, or a number in hexadecimal or in decimal. -/
inductive Directive where
  | literal (c : BitVec 8)
  | hex (width : Nat)
  | decimal

def directives : List Char → List Directive
  | [] => []
  | '%' :: '%' :: rest => .literal (ch '%') :: directives rest
  | '%' :: 'd' :: rest => .decimal :: directives rest
  | '%' :: '0' :: width :: 'x' :: rest => .hex (width.toNat - 48) :: directives rest
  | c :: rest => .literal (ch c) :: directives rest

/-- The output of the directives, each with its number; `%d` takes the 32 bits of its
number as those of an `int`. -/
def render : List Directive → List Nat → Text
  | .literal c :: rest, numbers => c :: render rest numbers
  | .hex width :: rest, number :: numbers => formatHex width number ++ render rest numbers
  | .decimal :: rest, number :: numbers =>
      ascii (toString (BitVec.ofNat 32 number).toInt) ++ render rest numbers
  | _, _ => []

def printf (format : String) (numbers : List Nat) : Text :=
  render (directives format.toList) numbers

def printLines (lines : List (String × List Nat)) : Text :=
  lines.flatMap fun line => printf line.1 line.2

def widths : List Directive → Option (List Nat)
  | [] => some []
  | .literal _ :: rest => widths rest
  | .hex width :: rest => (widths rest).map (width :: ·)
  | .decimal :: _ => none

/-- There is a column for each number, and it is wide enough. -/
def Fits (format : List Directive) (numbers : List Nat) : Prop :=
  ∃ columns, widths format = some columns ∧
    List.Forall₂ (fun width number => number < 16 ^ width) columns numbers

/-- There is a column for each number, and the number is printed in exactly its width. -/
def Fills (format : List Directive) (numbers : List Nat) : Prop :=
  ∃ columns, widths format = some columns ∧
    List.Forall₂ (fun width number => (formatHex width number).length = width) columns numbers

theorem Fits.hex {width : Nat} {format : List Directive} {numbers : List Nat}
    (fits : Fits (.hex width :: format) numbers) :
    ∃ number rest, numbers = number :: rest ∧ number < 16 ^ width ∧ Fits format rest := by
  obtain ⟨columns, isWidths, fit⟩ := fits
  obtain ⟨others, isOthers, rfl⟩ := Option.map_eq_some_iff.mp isWidths
  cases fit with
  | cons first rest => exact ⟨_, _, rfl, first, _, isOthers, rest⟩

theorem Fits.nil {numbers : List Nat} (fits : Fits [] numbers) : numbers = [] := by
  obtain ⟨columns, isWidths, fit⟩ := fits
  obtain rfl := Option.some.inj isWidths
  exact List.forall₂_nil_left_iff.mp fit

theorem length_formatHex {width number : Nat} (fits : number < 16 ^ width) :
    (formatHex width number).length = width := by
  have short : (Nat.digits 16 number).length ≤ width :=
    (Nat.digits_length_le_iff (by decide) number).mpr fits
  unfold formatHex
  dsimp only
  rw [List.length_append, List.length_replicate, List.length_map, List.length_reverse]
  omega

theorem Fits.fills {format : List Directive} {numbers : List Nat} (fits : Fits format numbers) :
    Fills format numbers := by
  obtain ⟨columns, isWidths, fit⟩ := fits
  exact ⟨columns, isWidths, fit.imp fun _ _ => length_formatHex⟩

theorem formatHex_append_inj {width number other : Nat} {rest more : Text}
    (fits : number < 16 ^ width) (otherFits : other < 16 ^ width)
    (same : formatHex width number ++ rest = formatHex width other ++ more) :
    number = other ∧ rest = more := by
  obtain ⟨column, behind⟩ := List.append_inj same
    ((length_formatHex fits).trans (length_formatHex otherFits).symm)
  refine ⟨?_, behind⟩
  rw [← hexValue_formatHex width number, column, hexValue_formatHex]

/-- A text printed with fixed columns decides its numbers, whatever follows it. -/
theorem render_append_inj {format : List Directive} {numbers others : List Nat} {rest more : Text}
    (fits : Fits format numbers) (othersFit : Fits format others)
    (same : render format numbers ++ rest = render format others ++ more) :
    numbers = others ∧ rest = more := by
  induction format generalizing numbers others with
  | nil =>
      obtain rfl := fits.nil
      obtain rfl := othersFit.nil
      exact ⟨rfl, same⟩
  | cons directive format ih =>
      cases directive with
      | literal c => exact ih fits othersFit (List.cons.inj same).2
      | decimal =>
          obtain ⟨columns, isWidths, -⟩ := fits
          exact nomatch isWidths
      | hex width =>
          obtain ⟨number, numbers, rfl, fits, restFit⟩ := fits.hex
          obtain ⟨other, others, rfl, otherFits, moreFit⟩ := othersFit.hex
          rw [render, render, List.append_assoc, List.append_assoc] at same
          obtain ⟨rfl, behind⟩ := formatHex_append_inj fits otherFits same
          obtain ⟨rfl, ends⟩ := ih restFit moreFit behind
          exact ⟨rfl, ends⟩

/-- A text printed by given formats with fixed columns decides all its numbers. -/
theorem printLines_append_inj {lines others : List (String × List Nat)} {rest more : Text}
    (formats : lines.map Prod.fst = others.map Prod.fst)
    (fit : ∀ line ∈ lines, Fits (directives line.1.toList) line.2)
    (othersFit : ∀ line ∈ others, Fits (directives line.1.toList) line.2)
    (same : printLines lines ++ rest = printLines others ++ more) :
    lines = others ∧ rest = more := by
  induction lines generalizing others with
  | nil =>
      obtain rfl : others = [] := List.map_eq_nil_iff.mp formats.symm
      exact ⟨rfl, same⟩
  | cons line lines ih =>
      cases others with
      | nil => exact nomatch formats
      | cons other others =>
          obtain ⟨format, numbers⟩ := line
          obtain ⟨otherFormat, otherNumbers⟩ := other
          obtain ⟨rfl, later⟩ := List.cons.inj formats
          obtain ⟨fits, restFit⟩ := List.forall_mem_cons.mp fit
          obtain ⟨otherFits, moreFit⟩ := List.forall_mem_cons.mp othersFit
          rw [printLines, printLines, List.flatMap_cons, List.flatMap_cons, List.append_assoc,
            List.append_assoc] at same
          obtain ⟨rfl, behind⟩ := render_append_inj fits otherFits same
          obtain ⟨rfl, ends⟩ := ih later restFit moreFit behind
          exact ⟨rfl, ends⟩

end Yess.Lib.Printf
