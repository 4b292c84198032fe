import Yess.MemLoader

/-!
# Lines of a memory image

What `validateline` has found in a line that it accepts: the columns of an address
and of a word, and the star.  Two columns it never looks at.
-/

namespace Yess.MemLoader

open Lib.CString

def columns (line : Text) (start count : Nat) : Text := (List.range' start count).map (get line)

def lineAddress (line : Text) : Int := hexValue (columns line 0 4)

def lineData (line : Text) : Word := BitVec.ofNat 32 (hexValue (columns line 6 8))

def lineStar (line : Text) : Bool := get line 15 = ch '*'

/-- The checks that a line has passed when `validateline` accepts it. -/
structure ValidLine (record : MemoryRecord) (line : Text) : Prop where
  long : minLineLen ≤ line.length ∧ line.length ≤ lineLen
  colon : get line 4 = ch ':'
  blank : isblank (get line 5) = true
  address : ∀ column, column ≤ 3 → isxdigit (get line column) = true
  data : ∀ column, 6 ≤ column → column ≤ 13 → isxdigit (get line column) = true
  star : minLineLen < line.length → get line 15 = ch '*' ∨ isspace (get line 15) = true
  inOrder : addressInOrder record (lineAddress line) = true

theorem hashexdigits_iff {line : Text} {start last : Nat} (ordered : start ≤ last) :
    hashexdigits line start last = true ↔
      last < line.length ∧ ∀ i, start ≤ i → i ≤ last → isxdigit (get line i) = true := by
  unfold hashexdigits
  rw [if_neg (Nat.not_lt.mpr ordered)]
  split
  · case isTrue outside =>
      exact iff_of_false Bool.false_ne_true fun digits => absurd digits.1 (Nat.not_lt.mpr outside)
  · case isFalse inside => rw [all_range'_iff, and_iff_right (Nat.lt_of_not_le inside)]

theorem mem_columns {line : Text} {start count : Nat} {c : Byte}
    (member : c ∈ columns line start count) :
    ∃ i, start ≤ i ∧ i < start + count ∧ get line i = c := by
  obtain ⟨i, range, isColumn⟩ := List.mem_map.mp member
  rw [List.mem_range'_1] at range
  exact ⟨i, range.1, range.2, isColumn⟩

@[simp] theorem length_columns (line : Text) (start count : Nat) :
    (columns line start count).length = count := by
  simp [columns]

theorem take_eq_columns {line : Text} {count : Nat} (long : count ≤ line.length) :
    line.take count = columns line 0 count := by
  refine List.ext_getElem (by simp [columns, long]) fun i first second => ?_
  have inside : i < line.length := by
    rw [List.length_take] at first
    omega
  simp [columns, get, inside]

theorem readaddress_eq {line : Text} (long : minLineLen ≤ line.length)
    (colon : get line 4 = ch ':')
    (digits : ∀ column, column ≤ 3 → isxdigit (get line column) = true) :
    readaddress line = some (lineAddress line) := by
  have long : 15 ≤ line.length := long
  have front : line = columns line 0 4 ++ ch ':' :: line.drop 5 := by
    have inside : 4 < line.length := by omega
    have isColon : (line)[4] = ch ':' := by simpa [get, inside] using colon
    rw [← take_eq_columns (by omega), ← isColon, ← List.drop_eq_getElem_cons inside,
      List.take_append_drop]
  have hex : ∀ c ∈ columns line 0 4, isxdigit c = true := by
    intro c member
    obtain ⟨i, -, small, rfl⟩ := mem_columns member
    exact digits i (by omega)
  have special (c : Byte) (member : c ∈ columns line 0 4) :=
    not_special_of_isxdigit c (hex c member)
  have span : strcspn (cstring line) (ch ':') = 4 := by
    have clean : nul ∉ columns line 0 4 := fun member => (special nul member).2.2.2.2.1 rfl
    have others : cstring (ch ':' :: line.drop 5) = ch ':' :: cstring (line.drop 5) := rfl
    rw [front, cstring_append clean, others, strcspn, List.takeWhile_append_of_pos,
      List.length_append, length_columns]
    · rfl
    · intro c member
      exact decide_eq_true (special c member).2.2.2.1
  have bound := hexValue_lt (columns line 0 4)
  rw [length_columns] at bound
  have converted : strtoint (line.take 4) 16 = lineAddress line := by
    rw [take_eq_columns (by omega)]
    exact strtoint_hexValue (List.ne_nil_of_length_pos (by simp)) hex (by omega)
  have notError : ¬ lineAddress line = -1 := by
    unfold lineAddress
    omega
  have inMemory : ¬ lineAddress line > highByte := by
    unfold lineAddress
    simp only [highByte]
    omega
  unfold readaddress
  dsimp only
  rw [span, converted, if_neg (by omega), if_neg notError, if_neg inMemory]

theorem readdata_eq {line : Text}
    (digits : ∀ column, 6 ≤ column → column ≤ 13 → isxdigit (get line column) = true) :
    readdata line = some (lineData line) := by
  have hex : ∀ c ∈ columns line 6 8, isxdigit c = true := by
    intro c member
    obtain ⟨i, lower, small, rfl⟩ := mem_columns member
    exact digits i lower (by omega)
  have clean : nul ∉ columns line 6 8 := fun member =>
    (not_special_of_isxdigit nul (hex nul member)).2.2.2.2.1 rfl
  have bound := hexValue_lt (columns line 6 8)
  rw [length_columns] at bound
  have nonempty : columns line 6 8 ≠ [] := List.ne_nil_of_length_pos (by simp)
  have fits : (hexValue (columns line 6 8) : Int) ≤ longMax := by
    simp only [longMax]
    omega
  have small : ¬ 4294967295 < (hexValue (columns line 6 8) : Int) := by omega
  have notNegative : ¬ (hexValue (columns line 6 8) : Int) < 0 := by omega
  have converted : strtonumOBSD (columns line 6 8) 0 4294967295 16 =
      .ok (hexValue (columns line 6 8)) := by
    unfold strtonumOBSD
    rw [strtol_hexValue nonempty hex fits]
    simp [nonempty.symm, small]
  change strtouint (cstring (columns line 6 8)) 16 = _
  rw [cstring_of_notMem clean, strtouint, converted]
  exact congrArg some (BitVec.ofInt_natCast _ _)

/-- Column 15 is looked at in a line that reaches it. -/
theorem readstar_eq_some_iff (line : Text) (star : Bool) :
    readstar line = some star ↔
      (minLineLen < line.length → get line 15 = ch '*' ∨ isspace (get line 15) = true) ∧
        star = lineStar line := by
  unfold readstar lineStar
  by_cases reaches : minLineLen < line.length
  · rw [if_pos reaches]
    by_cases refused : get line 15 ≠ ch '*' ∧ !isspace (get line 15)
    · rw [if_pos refused]
      refine iff_of_false nofun ?_
      rintro ⟨column, -⟩
      rcases column reaches with isStar | space
      · exact refused.1 isStar
      · rw [space] at refused
        exact absurd refused.2 (by decide)
    · rw [if_neg refused, Option.some.injEq]
      constructor
      · intro same
        refine ⟨fun _ => ?_, same.symm⟩
        by_contra neither
        rw [not_or, Bool.not_eq_true] at neither
        exact refused ⟨neither.1, by rw [neither.2]; rfl⟩
      · rintro ⟨-, same⟩
        exact same.symm
  · have noColumn : get line 15 ≠ ch '*' := by
      have short : line.length ≤ 15 := Nat.not_lt.mp reaches
      rw [get, List.getD_eq_getElem?_getD, List.getElem?_eq_none short]
      decide
    rw [if_neg reaches, Option.some.injEq, decide_eq_false noColumn]
    constructor
    · intro same
      exact ⟨fun beyond => absurd beyond reaches, same.symm⟩
    · rintro ⟨-, same⟩
      exact same.symm

/-- `validateline` accepts exactly the valid lines, and hands on their address and star. -/
theorem validateline_iff (record : MemoryRecord) (line : Text) (address : Int) (star : Bool) :
    validateline record line = some (address, star) ↔
      ValidLine record line ∧ address = lineAddress line ∧ star = lineStar line := by
  unfold validateline
  constructor
  · intro accepted
    split_ifs at accepted with outside noColon noBlank noAddress noData
    have long : minLineLen ≤ line.length := Nat.not_lt.mp fun short => outside (Or.inl short)
    have short : line.length ≤ lineLen := Nat.not_lt.mp fun long => outside (Or.inr long)
    simp only [Bool.not_eq_true, Bool.not_eq_false'] at noBlank noAddress noData
    have addressDigits := (hashexdigits_iff (by decide)).mp noAddress
    have dataDigits := (hashexdigits_iff (by decide)).mp noData
    have colon := not_not.mp noColon
    have digits (column : Nat) (small : column ≤ 3) : isxdigit (get line column) = true :=
      addressDigits.2 column (Nat.zero_le column) small
    split at accepted
    · exact nomatch accepted
    · case h_2 found isStar =>
        obtain ⟨starColumn, starValue⟩ := (readstar_eq_some_iff line found).mp isStar
        rw [readaddress_eq long colon digits] at accepted
        dsimp only at accepted
        split_ifs at accepted with inOrder
        obtain ⟨rfl, rfl⟩ := Prod.mk.inj (Option.some.inj accepted)
        exact ⟨⟨⟨long, short⟩, colon, noBlank, digits, dataDigits.2, starColumn, inOrder⟩, rfl,
          starValue⟩
  · rintro ⟨⟨⟨long, short⟩, colon, blank, digits, data, starColumn, inOrder⟩, rfl, rfl⟩
    have inside : ¬ (line.length < minLineLen ∨ line.length > lineLen) := by omega
    have least : 15 ≤ line.length := long
    have addressDigits : hashexdigits line 0 3 = true :=
      (hashexdigits_iff (by decide)).mpr ⟨by omega, fun i _ upper => digits i upper⟩
    have dataDigits : hashexdigits line 6 13 = true :=
      (hashexdigits_iff (by decide)).mpr ⟨by omega, data⟩
    have isStar := (readstar_eq_some_iff line (lineStar line)).mpr ⟨starColumn, rfl⟩
    rw [if_neg inside, if_neg (not_not.mpr colon), blank, addressDigits, dataDigits, isStar,
      readaddress_eq long colon digits]
    exact if_pos inOrder

/-! ## The end of a line -/

/-- Behind the data stand white space and, in column 15 only, at most one star. -/
structure StrictLine (line : Text) : Prop where
  address : ∀ column, column ≤ 3 → isxdigit (get line column) = true
  colon : get line 4 = ch ':'
  blank : isblank (get line 5) = true
  data : ∀ column, 6 ≤ column → column ≤ 13 → isxdigit (get line column) = true
  tail : ∀ column, 14 ≤ column → column < line.length →
    isspace (get line column) = true ∨ (column = 15 ∧ get line column = ch '*')

/-- For every accepted line: it is in the strict format if and only if white space
stands in column 14, and in column 16 when the line has one. -/
theorem strictLine_iff {record : MemoryRecord} {line : Text} {found : Int × Bool}
    (accepted : validateline record line = some found) :
    StrictLine line ↔
      isspace (get line 14) = true ∧ (line.length = 17 → isspace (get line 16) = true) := by
  obtain ⟨address, star⟩ := found
  obtain ⟨valid, -, -⟩ := (validateline_iff record line address star).mp accepted
  have long : 15 ≤ line.length := valid.long.1
  have short : line.length ≤ 17 := valid.long.2
  constructor
  · intro strict
    constructor
    · rcases strict.tail 14 (by decide) (by omega) with space | ⟨isFifteen, -⟩
      · exact space
      · exact absurd isFifteen (by decide)
    · intro whole
      rcases strict.tail 16 (by decide) (by omega) with space | ⟨isFifteen, -⟩
      · exact space
      · exact absurd isFifteen (by decide)
  · rintro ⟨space14, space16⟩
    refine ⟨valid.address, valid.colon, valid.blank, valid.data, fun column lower inside => ?_⟩
    obtain rfl | rfl | rfl : column = 14 ∨ column = 15 ∨ column = 16 := by omega
    · exact Or.inl space14
    · rcases valid.star inside with isStar | space
      · exact Or.inr ⟨rfl, isStar⟩
      · exact Or.inl space
    · exact Or.inl (space16 (by omega))

/-- An address, a word, and a ninth digit at the end of the file. -/
def ninthDigit : Text := ascii "0000: 000000001"

/-- The line is accepted and its last digit ignored. -/
theorem ninthDigit_accepted :
    (loadMemImage (ascii "a.mem") (some ninthDigit) initMemory).result = true ∧
      validateline ⟨1, -1, 0, false⟩ ninthDigit = some (0, false) ∧
      ¬ StrictLine ninthDigit := by
  refine ⟨by decide +kernel, by decide +kernel, fun strict => ?_⟩
  rcases strict.tail 14 (by decide) (by decide) with space | ⟨isFifteen, -⟩
  · exact absurd space (by decide)
  · exact absurd isFifteen (by decide)

/-- The iff at this line. -/
theorem strictLine_iff_ninthDigit :
    StrictLine ninthDigit ↔
      isspace (get ninthDigit 14) = true ∧
        (ninthDigit.length = 17 → isspace (get ninthDigit 16) = true) :=
  strictLine_iff (show validateline ⟨1, -1, 0, false⟩ ninthDigit = some (0, false) by
    decide +kernel)

end Yess.MemLoader
