import Yess.Loader

/-!
# Valid lines

What `validline` has found in a line that it accepts: a comment record, or the
columns of a data record, whose bytes are the leading pairs of digits in the
columns from 9 on.
-/

namespace Yess

open Lib.CString Lib.ByteStore

/-- The checks that a data record has passed when `validline` accepts it. -/
structure DataLine (line : Buffer) (prev_addr : Int) : Prop where
  isData : isdatarecord line = true
  address : validateaddress line recordLen prev_addr = true
  data : hasdata line recordLen ≠ 0 → validatedata line = true

/-- The columns that make a data record. -/
structure DataColumns (line : Buffer) : Prop where
  blank0 : isblank (line.get 0) = true
  blank1 : isblank (line.get 1) = true
  blank8 : isblank (line.get 8) = true
  blank21 : isblank (line.get 21) = true
  zero : line.get 2 = ch '0'
  x : line.get 3 = ch 'x'
  colon : line.get 7 = ch ':'

theorem isdatarecord_iff (line : Buffer) : isdatarecord line = true ↔ DataColumns line := by
  unfold isdatarecord
  constructor
  · intro isData
    split at isData
    · exact absurd isData (by decide)
    · case isFalse blanks =>
        simp only [Bool.not_eq_true', Bool.not_eq_false, Bool.and_eq_true] at blanks
        simp only [Bool.and_eq_true, decide_eq_true_eq] at isData
        obtain ⟨⟨⟨blank0, blank1⟩, blank8⟩, blank21⟩ := blanks
        obtain ⟨⟨zero, x⟩, colon⟩ := isData
        exact ⟨blank0, blank1, blank8, blank21, zero, x, colon⟩
  · rintro ⟨blank0, blank1, blank8, blank21, zero, x, colon⟩
    simp [blank0, blank1, blank8, blank21, zero, x, colon]

/-- A line is valid when it has its bar and is a comment record or a data record
that passes its checks. -/
theorem validline_iff (line : Buffer) (prev_addr : Int) :
    validline line recordLen prev_addr = true ↔
      line.get 22 = ch '|' ∧
        (iscommentrecord line recordLen = true ∨ DataLine line prev_addr) := by
  unfold validline
  rw [if_neg (by decide)]
  by_cases bar : line.get 22 = ch '|'
  · rw [if_neg (not_not.mpr bar)]
    simp only [bar, true_and]
    by_cases comment : iscommentrecord line recordLen = true
    · have blanks := (iscommentrecord_iff line).mp comment
      refine iff_of_true ?_ (Or.inl comment)
      rw [blanks 0 (by decide), blanks 1 (by decide), blanks 8 (by decide),
        blanks 21 (by decide), if_pos comment]
      rfl
    · rw [if_neg comment]
      constructor
      · intro valid
        split_ifs at valid with noBlanks noData address bytes
        · refine Or.inr ⟨?_, address, fun _ => valid⟩
          simpa using noData
        · refine Or.inr ⟨?_, address, fun nonzero => absurd nonzero bytes⟩
          simpa using noData
      · rintro (isComment | ⟨isData, address, data⟩)
        · exact absurd isComment comment
        · have columns := (isdatarecord_iff line).mp isData
          rw [columns.blank0, columns.blank1, columns.blank8, columns.blank21, isData]
          simp only [Bool.and_self, Bool.not_true, Bool.false_eq_true, if_false, address, if_true]
          split
          · case isTrue nonzero => exact data nonzero
          · rfl
  · rw [if_pos bar]
    exact iff_of_false Bool.false_ne_true fun valid => bar valid.1

theorem hashexdigits_address_iff (line : Buffer) :
    hashexdigits line recordLen 4 6 = true ↔
      isxdigit (line.get 4) = true ∧ isxdigit (line.get 5) = true ∧
        isxdigit (line.get 6) = true := by
  rw [hashexdigits_iff]
  constructor
  · rintro ⟨-, digits⟩
    exact ⟨digits 4 (by decide) (by decide), digits 5 (by decide) (by decide),
      digits 6 (by decide) (by decide)⟩
  · rintro ⟨digit4, digit5, digit6⟩
    refine ⟨by decide, fun i lower upper => ?_⟩
    obtain rfl | rfl | rfl : i = 4 ∨ i = 5 ∨ i = 6 := by omega
    · exact digit4
    · exact digit5
    · exact digit6

theorem hasaddress_iff (line : Buffer) :
    hasaddress line = true ↔
      (line.get 2 = ch '0' ∧ line.get 3 = ch 'x' ∧ line.get 7 = ch ':') ∧
        isxdigit (line.get 4) = true ∧ isxdigit (line.get 5) = true ∧
          isxdigit (line.get 6) = true := by
  simp only [hasaddress, Bool.and_eq_true, decide_eq_true_eq, and_assoc]

theorem DataLine.hasaddress {line : Buffer} {prev_addr : Int} (checked : DataLine line prev_addr) :
    hasaddress line = true := by
  have columns := (isdatarecord_iff line).mp checked.isData
  have digits : hashexdigits line recordLen 4 6 = true := by
    by_contra none
    have address := checked.address
    unfold validateaddress at address
    rw [Bool.eq_false_iff.mpr none] at address
    exact Bool.false_ne_true address
  rw [hasaddress_iff, ← hashexdigits_address_iff]
  exact ⟨⟨columns.zero, columns.x, columns.colon⟩, digits⟩

theorem dataLine_of_validline {line : Buffer} {prev_addr : Int}
    (valid : validline line recordLen prev_addr = true) (address : hasaddress line = true) :
    DataLine line prev_addr := by
  rcases ((validline_iff line prev_addr).mp valid).2 with comment | checked
  · have zero := ((hasaddress_iff line).mp address).1.1
    have blank := (iscommentrecord_iff line).mp comment 2 (by decide)
    rw [zero] at blank
    exact absurd blank (by decide)
  · exact checked

/-! ## The leading pairs of digits -/

/-- Two digits stand in the columns of byte number `index`, counted from zero. -/
def Pair (line : Buffer) (index : Nat) : Prop :=
  isxdigit (line.get (9 + 2 * index)) = true ∧ isxdigit (line.get (10 + 2 * index)) = true

instance (line : Buffer) (index : Nat) : Decidable (Pair line index) :=
  inferInstanceAs (Decidable (_ ∧ _))

theorem hashexdigits_pair_iff (line : Buffer) {len index : Nat} (inside : 10 + 2 * index < len) :
    hashexdigits line len (9 + 2 * index) (9 + 2 * index + 1) = true ↔ Pair line index := by
  rw [hashexdigits_iff]
  constructor
  · rintro ⟨-, digits⟩
    exact ⟨digits _ (by omega) (by omega), digits _ (by omega) (by omega)⟩
  · rintro ⟨high, low⟩
    refine ⟨by omega, fun i lower upper => ?_⟩
    obtain rfl | rfl : i = 9 + 2 * index ∨ i = 10 + 2 * index := by omega
    · exact high
    · exact low

theorem countData_eq {line : Buffer} {len index missing fuel : Nat} (le : index ≤ missing)
    (pairs : ∀ k, k < missing → Pair line k) (stop : ¬ Pair line missing)
    (inside : 10 + 2 * missing < len) (enough : missing - index < fuel) :
    countData line len fuel (9 + 2 * index) = missing - index := by
  induction fuel generalizing index with
  | zero => exact absurd enough (Nat.not_lt_zero _)
  | succ fuel ih =>
      rcases Nat.lt_or_eq_of_le le with below | rfl
      · have inLine : 10 + 2 * index < len := by omega
        have pair := (hashexdigits_pair_iff line inLine).mpr (pairs index below)
        rw [countData, if_pos pair, show 9 + 2 * index + 2 = 9 + 2 * (index + 1) by omega,
          ih below (by omega)]
        omega
      · rw [countData, if_neg, Nat.sub_self]
        exact fun pair => stop ((hashexdigits_pair_iff line inside).mp pair)

theorem hasdata_eq {line : Buffer} {missing : Nat} (pairs : ∀ k, k < missing → Pair line k)
    (stop : ¬ Pair line missing) (small : missing ≤ 6) : hasdata line recordLen = missing := by
  unfold hasdata
  by_cases digit : isxdigit (line.get 9) = true
  · rw [digit, Bool.not_true, if_neg Bool.false_ne_true]
    exact countData_eq (Nat.zero_le missing) pairs stop (by simp only [recordLen]; omega)
      (by simp only [recordLen]; omega)
  · rw [if_pos (by rw [Bool.eq_false_iff.mpr digit]; rfl)]
    by_contra other
    exact digit (pairs 0 (by omega)).1

theorem exists_missing {line : Buffer} (noDigit : isxdigit (line.get 21) = false) :
    ∃ missing, missing ≤ 6 ∧ (∀ k, k < missing → Pair line k) ∧ ¬ Pair line missing := by
  have exists_stop : ∃ missing, ¬ Pair line missing :=
    ⟨6, fun pair => Bool.false_ne_true (noDigit.symm.trans pair.1)⟩
  refine ⟨Nat.find exists_stop, ?_, fun k below => ?_, Nat.find_spec exists_stop⟩
  · exact Nat.find_min' exists_stop fun pair =>
      Bool.false_ne_true (noDigit.symm.trans pair.1)
  · exact not_not.mp (Nat.find_min exists_stop below)

/-- What `hasdata` says of a line without a digit in column 21. -/
theorem hasdata_spec {line : Buffer} (noDigit : isxdigit (line.get 21) = false) :
    hasdata line recordLen ≤ 6 ∧ (∀ k, k < hasdata line recordLen → Pair line k) ∧
      ¬ Pair line (hasdata line recordLen) := by
  obtain ⟨missing, small, pairs, stop⟩ := exists_missing noDigit
  rw [hasdata_eq pairs stop small]
  exact ⟨small, pairs, stop⟩

theorem not_isxdigit_of_isblank {c : Byte} (blank : isblank c = true) : isxdigit c = false := by
  rcases (Bool.or_eq_true _ _).mp blank with isSpace | isTab
  · rw [of_decide_eq_true isSpace]
    decide
  · rw [of_decide_eq_true isTab]
    decide

theorem DataLine.hasdata_spec {line : Buffer} {prev_addr : Int}
    (checked : DataLine line prev_addr) :
    hasdata line recordLen ≤ 6 ∧ (∀ k, k < hasdata line recordLen → Pair line k) ∧
      ¬ Pair line (hasdata line recordLen) :=
  Yess.hasdata_spec
    (not_isxdigit_of_isblank ((isdatarecord_iff line).mp checked.isData).blank21)

/-- A digit in an odd column has a digit behind it. -/
def Partnered (line : Buffer) : Prop :=
  ∀ k, 1 ≤ k → k ≤ 5 → isxdigit (line.get (9 + 2 * k)) = true →
    isxdigit (line.get (10 + 2 * k)) = true

theorem validatedata_iff {line : Buffer} (long : 21 ≤ line.text.length) :
    validatedata line = true ↔ Pair line 0 ∧ Partnered line := by
  have first : hashexdigits line line.text.length 9 10 = true ↔ Pair line 0 :=
    @hashexdigits_pair_iff line line.text.length 0 (by omega)
  unfold validatedata
  rw [if_neg (Nat.not_lt.mpr long)]
  by_cases pair : Pair line 0
  · rw [first.mpr pair]
    simp only [Bool.not_true, Bool.false_eq_true, if_false, pair, true_and, List.all_eq_true]
    constructor
    · intro all k lower upper digit
      have member : 9 + 2 * k ∈ [11, 13, 15, 17, 19] := by
        obtain rfl | rfl | rfl | rfl | rfl : k = 1 ∨ k = 2 ∨ k = 3 ∨ k = 4 ∨ k = 5 := by omega
        all_goals decide
      have partner := all _ member
      rw [digit, Bool.not_true, Bool.false_or] at partner
      rwa [show 10 + 2 * k = 9 + 2 * k + 1 by omega]
    · intro partnered column member
      obtain ⟨k, lower, upper, rfl⟩ : ∃ k, 1 ≤ k ∧ k ≤ 5 ∧ column = 9 + 2 * k := by
        refine ⟨(column - 9) / 2, ?_⟩
        simp only [List.mem_cons, List.not_mem_nil, or_false] at member
        omega
      cases digit : isxdigit (line.get (9 + 2 * k)) with
      | false => rfl
      | true =>
          have partner := partnered k lower upper digit
          rw [show 9 + 2 * k + 1 = 10 + 2 * k by omega, partner]
          rfl
  · rw [Bool.eq_false_iff.mpr fun digits => pair (first.mp digits)]
    exact iff_of_false Bool.false_ne_true fun valid => pair valid.1

/-! ## What the fields of a data record give -/

namespace DataLine

variable {line : Buffer} {prev_addr : Int} (checked : DataLine line prev_addr)
include checked

theorem digits : isxdigit (line.get 4) = true ∧ isxdigit (line.get 5) = true ∧
    isxdigit (line.get 6) = true :=
  ((hasaddress_iff line).mp checked.hasaddress).2

theorem clean {i : Nat} (small : i < 9) : line.get i ≠ nul := by
  have columns := (isdatarecord_iff line).mp checked.isData
  obtain ⟨digit4, digit5, digit6⟩ := checked.digits
  have blank {c : Byte} (isBlank : isblank c = true) : c ≠ nul := by
    rintro rfl
    exact absurd isBlank (by decide)
  have digit {c : Byte} (isHex : isxdigit c = true) : c ≠ nul :=
    (not_special_of_isxdigit c isHex).2.2.2.2.1
  obtain rfl | rfl | rfl | rfl | rfl | rfl | rfl | rfl | rfl :
    i = 0 ∨ i = 1 ∨ i = 2 ∨ i = 3 ∨ i = 4 ∨ i = 5 ∨ i = 6 ∨ i = 7 ∨ i = 8 := by omega
  · exact blank columns.blank0
  · exact blank columns.blank1
  · rw [columns.zero]
    decide
  · rw [columns.x]
    decide
  · exact digit digit4
  · exact digit digit5
  · exact digit digit6
  · rw [columns.colon]
    decide
  · exact blank columns.blank8

end DataLine

end Yess
