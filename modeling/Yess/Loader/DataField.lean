import Yess.Loader.ValidLine

/-!
# The data field of a record

`hasdata` counts pairs of digits up to the first gap, and `validatedata` looks at
every other column, but only behind a first pair.  Together they accept fields in
which something stands behind the pairs that are stored.
-/

namespace Yess

open Lib.CString

/-- The columns from 9 through 20 hold the bytes that `hasdata` counts, and blanks. -/
structure OnlyPairs (line : Buffer) : Prop where
  few : hasdata line recordLen ≤ 6
  pairs : ∀ k, k < hasdata line recordLen → Pair line k
  blanks : ∀ column, 9 + 2 * hasdata line recordLen ≤ column → column ≤ 20 →
    isblank (line.get column) = true

/-- The header of a data record is in order, and behind its leading pairs stands
something that is neither a blank nor, when there is a leading pair, a digit in an
odd column without a digit behind it. -/
structure DropsData (line : Buffer) (prev_addr : Int) (leading : Nat) : Prop where
  bar : line.get 22 = ch '|'
  isData : isdatarecord line = true
  address : validateaddress line recordLen prev_addr = true
  pairs : ∀ k, k < leading → Pair line k
  stop : ¬ Pair line leading
  dropped : ∃ column, 9 + 2 * leading ≤ column ∧ column ≤ 20 ∧ isblank (line.get column) = false
  partnered : leading ≠ 0 → Partnered line

theorem DropsData.hasdata {line : Buffer} {prev_addr : Int} {leading : Nat}
    (drops : DropsData line prev_addr leading) : hasdata line recordLen = leading := by
  obtain ⟨column, lower, upper, -⟩ := drops.dropped
  exact hasdata_eq drops.pairs drops.stop (by omega)

theorem DropsData.validline {line : Buffer} {prev_addr : Int} {leading : Nat}
    (drops : DropsData line prev_addr leading) (full : 23 ≤ line.text.length) :
    DataLine line prev_addr ∧ validline line recordLen prev_addr = true := by
  have checked : DataLine line prev_addr := by
    refine ⟨drops.isData, drops.address, fun nonzero => ?_⟩
    rw [drops.hasdata] at nonzero
    rw [validatedata_iff (by omega)]
    exact ⟨drops.pairs 0 (Nat.pos_of_ne_zero nonzero), drops.partnered nonzero⟩
  exact ⟨checked, (validline_iff line prev_addr).mpr ⟨drops.bar, Or.inr checked⟩⟩

/-- For every line of at least 23 characters: if it is accepted as a data record its
data field holds the bytes that are stored and blanks, if and only if it does not
have, behind its leading pairs, something that the two checks leave alone. -/
theorem onlyPairs_iff (line : Buffer) (prev_addr : Int) (full : 23 ≤ line.text.length) :
    (validline line recordLen prev_addr = true → hasaddress line = true → OnlyPairs line) ↔
      ¬ ∃ leading, DropsData line prev_addr leading := by
  constructor
  · rintro onlyPairs ⟨leading, drops⟩
    obtain ⟨checked, valid⟩ := drops.validline full
    obtain ⟨column, lower, upper, dropped⟩ := drops.dropped
    rw [← drops.hasdata] at lower
    have blank := (onlyPairs valid checked.hasaddress).blanks column lower upper
    exact Bool.false_ne_true (dropped.symm.trans blank)
  · intro keeps valid address
    have checked := dataLine_of_validline valid address
    obtain ⟨few, pairs, stop⟩ := checked.hasdata_spec
    refine ⟨few, pairs, fun column lower upper => ?_⟩
    by_contra dropped
    refine keeps ⟨hasdata line recordLen, ((validline_iff line prev_addr).mp valid).1,
      checked.isData, checked.address, pairs, stop,
      ⟨column, lower, upper, Bool.eq_false_iff.mpr dropped⟩, fun nonzero => ?_⟩
    exact ((validatedata_iff (by omega)).mp (checked.data nonzero)).2

/-- A record with a gap between its two bytes. -/
def gapRecord : Buffer := strlcpy (fun _ => nul) (ascii "  0x000: 12  34       |")

/-- The record is accepted, its second byte is not stored, and it is not blank. -/
theorem gapRecord_accepted :
    23 ≤ gapRecord.text.length ∧ validline gapRecord recordLen (-1) = true ∧
      hasaddress gapRecord = true ∧ ¬ OnlyPairs gapRecord := by
  refine ⟨by decide +kernel, by decide +kernel, by decide +kernel, fun onlyPairs => ?_⟩
  have blank := onlyPairs.blanks 13 (by decide +kernel) (by decide)
  exact absurd blank (by decide +kernel)

/-- The iff at this record. -/
theorem onlyPairs_iff_gapRecord :
    (validline gapRecord recordLen (-1) = true → hasaddress gapRecord = true →
        OnlyPairs gapRecord) ↔
      ¬ ∃ leading, DropsData gapRecord (-1) leading :=
  onlyPairs_iff gapRecord (-1) (by decide +kernel)

end Yess
