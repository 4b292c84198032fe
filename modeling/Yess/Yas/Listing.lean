import Yess.Yas.Lines

/-!
# Printing a line

`print_code` writes digits over a line of blanks.  What comes out is the line of a
record of the object file.
-/

namespace Yess.Yas

open Lib.BitField Lib.CString

/-! ## Digits -/

theorem nibble_eq (value : Int) {i : Nat} (small : i < 8) :
    ((BitVec.ofInt 32 value).sshiftRight (4 * i) &&& 0xF).toNat =
      (BitVec.ofInt 32 value).toNat / 16 ^ i % 16 := by
  have unsigned (x : BitVec 32) :
      x.sshiftRight (4 * i) &&& 0xF = x >>> (4 * i) &&& 0xF := by
    apply BitVec.eq_of_getLsbD_eq
    intro bit lt
    rw [BitVec.getLsbD_and, BitVec.getLsbD_and, BitVec.getLsbD_sshiftRight,
      BitVec.getLsbD_ushiftRight]
    by_cases low : bit < 4
    · have inside : 4 * i + bit < 32 := by omega
      rw [if_pos inside, decide_eq_false (by omega), Bool.not_false, Bool.true_and]
    · have zero : (0xF : BitVec 32).getLsbD bit = false := by
        have zeros : ∀ bit < 32, ¬ bit < 4 → (0xF : BitVec 32).getLsbD bit = false := by decide
        exact zeros bit lt low
      rw [zero, Bool.and_false, Bool.and_false]
  rw [unsigned, BitVec.toNat_and, BitVec.toNat_ushiftRight, Nat.shiftRight_eq_div_pow, Nat.pow_mul]
  exact Nat.and_two_pow_sub_one_eq_mod _ 4

/-- The low three digits of an address. -/
theorem hexstuff_address (pos : Int) :
    hexstuff pos 3 =
      [(HexDigit.last ((BitVec.ofInt 32 pos).toNat / 256)).char,
        (HexDigit.last ((BitVec.ofInt 32 pos).toNat / 16)).char,
        (HexDigit.last (BitVec.ofInt 32 pos).toNat).char] := by
  change [hexDigit _, hexDigit _, hexDigit _] = _
  rw [@nibble_eq pos 2 (by decide), @nibble_eq pos 1 (by decide), @nibble_eq pos 0 (by decide),
    Nat.pow_zero, Nat.div_one, Nat.pow_one]
  rfl

theorem hexstuff_byte (byte : Byte) : hexstuff byte.toNat 2 = digits [byteDigits byte] := by
  have bound := byte.isLt
  have same : (BitVec.ofInt 32 byte.toNat).toNat = byte.toNat := by
    rw [BitVec.ofInt_natCast, BitVec.toNat_ofNat, Nat.mod_eq_of_lt (by omega)]
  change [hexDigit _, hexDigit _] = _
  rw [@nibble_eq byte.toNat 1 (by decide), @nibble_eq byte.toNat 0 (by decide), same, Nat.pow_zero,
    Nat.div_one, Nat.pow_one]
  rfl

/-! ## The line -/

theorem overwrite_append {front old new behind : Text} (same : old.length = new.length) :
    overwrite (front ++ old ++ behind) front.length new = front ++ new ++ behind := by
  unfold overwrite
  rw [List.append_assoc front, List.take_left, ← same, ← List.drop_drop, List.drop_left,
    List.drop_left]

/-- The line before any byte is written: an address, and blanks up to the bar. -/
def addressed (pos : Nat) : Text :=
  [space, space, ch '0', ch 'x', (HexDigit.last (pos / 256)).char,
    (HexDigit.last (pos / 16)).char, (HexDigit.last pos).char, ch ':', space]

theorem overwrite_address (pos : Int) :
    overwrite (ascii "  0x000:              | ") 4 (hexstuff pos 3) =
      addressed (BitVec.ofInt 32 pos).toNat ++ List.replicate 13 space ++ [ch '|', space] := by
  rw [hexstuff_address]
  rfl

theorem overwrite_bytes (pos : Nat) (code : Nat → Byte) {count : Nat} (fits : count ≤ 6) :
    (List.range count).foldl
        (fun outstring i => overwrite outstring (9 + 2 * i) (hexstuff (code i).toNat 2))
        (addressed pos ++ List.replicate 13 space ++ [ch '|', space]) =
      addressed pos ++ digits ((Assembler.coded code count).map byteDigits) ++
        List.replicate (13 - 2 * count) space ++ [ch '|', space] := by
  induction count with
  | zero => rfl
  | succ count ih =>
      have front : (addressed pos ++ digits ((Assembler.coded code count).map byteDigits)).length =
          9 + 2 * count := by
        rw [List.length_append, length_digits, List.length_map, Assembler.length_coded]
        rfl
      have blanks : 13 - 2 * count = 2 + (13 - 2 * (count + 1)) := by omega
      rw [List.range_succ, List.foldl_append, ih (by omega), List.foldl_cons, List.foldl_nil,
        blanks, List.replicate_add, ← List.append_assoc _ (List.replicate 2 space),
        List.append_assoc _ (List.replicate _ space), ← front, overwrite_append]
      · rw [hexstuff_byte, Assembler.coded_succ, List.map_append, digits_append]
        simp only [List.append_assoc]
        rfl
      · rw [hexstuff_byte]
        rfl

namespace Assembler

/-- A line with tokens is printed as a data record. -/
theorem printCode_data {s : Assembler} {bytes : List Byte} (hasTokens : s.tokens ≠ []) (pos : Int)
    (isCoded : coded s.code s.bcount = bytes) (fits : s.bcount ≤ 6)
    (clean : newline ∉ s.inputLine) :
    s.printCode pos =
      { s with
        outfile := s.outfile ++ (printed pos bytes s.inputLine).line ++ [newline] } := by
  have length : bytes.length = s.bcount := by rw [← isCoded, length_coded]
  have line : (printed pos bytes s.inputLine).line =
      addressed (BitVec.ofInt 32 pos).toNat ++ digits (bytes.map byteDigits) ++
        List.replicate (13 - 2 * s.bcount) space ++ [ch '|', space] ++ s.inputLine := by
    generalize address : (BitVec.ofInt 32 pos).toNat = number
    have data : (dataRecord number bytes (space :: s.inputLine)).data = bytes.map byteDigits := by
      change (bytes.take 6).map byteDigits = _
      rw [List.take_of_length_le (by omega)]
    have tail : (Record.data (dataRecord number bytes (space :: s.inputLine))).tail =
        space :: s.inputLine := oneLine_eq fun member =>
      (List.mem_cons.mp member).elim (by decide) clean
    rw [printed, address, Record.line, columns_data, data, List.length_map, length, tail]
    simp only [List.append_assoc]
    rfl
  unfold printCode
  rw [if_pos hasTokens, overwrite_address, overwrite_bytes _ s.code fits, isCoded, line]
  simp only [List.append_assoc]

theorem printCode_comment {s : Assembler} (noTokens : s.tokens = []) (pos : Int)
    (clean : newline ∉ s.inputLine) :
    s.printCode pos =
      { s with
        outfile :=
          s.outfile ++ (Record.comment (commentRecord (space :: s.inputLine))).line ++
            [newline] } := by
  have tail : (Record.comment (commentRecord (space :: s.inputLine))).tail =
      space :: s.inputLine := oneLine_eq fun member =>
    (List.mem_cons.mp member).elim (by decide) clean
  unfold printCode
  rw [if_neg (not_not.mpr noTokens), Record.line, tail]
  simp only [List.append_assoc]
  rfl

end Assembler

end Yess.Yas
