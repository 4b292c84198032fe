import Yess.Loader.Addresses

/-!
# Well-formed object files

The records of the object file format, column by column, and what loading them
gives: each byte of each record at its address, and zero everywhere else.
-/

namespace Yess

open Lib.CString Lib.ByteStore

/-! ## Digits -/

/-- A hexadecimal digit of either case. -/
structure HexDigit where
  char : Byte
  isHex : isxdigit char = true

namespace HexDigit

def value (d : HexDigit) : Nat := (digit 16 d.char).get d.isHex

theorem digit_eq (d : HexDigit) : digit 16 d.char = some d.value := (Option.some_get _).symm

theorem value_lt (d : HexDigit) : d.value < 16 := digit_lt d.digit_eq

end HexDigit

theorem strtoint_byte (high low : HexDigit) :
    strtoint [high.char, low.char] 16 = (high.value * 16 + low.value : Nat) := by
  have highBound := high.value_lt
  have lowBound := low.value_lt
  have value : hexValue [high.char, low.char] = high.value * 16 + low.value := by
    simp [hexValue, readDigits, high.digit_eq, low.digit_eq]
  rw [← value]
  refine strtoint_hexValue (List.cons_ne_nil _ _) ?_ (by omega)
  intro c member
  rcases List.mem_pair.mp member with rfl | rfl
  · exact high.isHex
  · exact low.isHex

theorem isspace_of_isblank {c : Byte} (blank : isblank c = true) : isspace c = true := by
  rcases (Bool.or_eq_true _ _).mp blank with isSpace | isTab
  · rw [of_decide_eq_true isSpace]
    rfl
  · rw [of_decide_eq_true isTab]
    rfl

theorem strtoint_address {first second : Byte} (blank0 : isblank first = true)
    (blank1 : isblank second = true) (high middle low : HexDigit) :
    strtoint [first, second, ch '0', ch 'x', high.char, middle.char, low.char] 16 =
      ((high.value * 16 + middle.value) * 16 + low.value : Nat) := by
  have highBound := high.value_lt
  have middleBound := middle.value_lt
  have lowBound := low.value_lt
  have signed : scanSign ([first, second, ch '0', ch 'x', high.char, middle.char,
      low.char].dropWhile isspace) =
        (false, [ch '0', ch 'x', high.char, middle.char, low.char]) := by
    rw [List.dropWhile_cons_of_pos (isspace_of_isblank blank0),
      List.dropWhile_cons_of_pos (isspace_of_isblank blank1)]
    rfl
  refine strtoint_of_strtol (List.cons_ne_nil _ _) (by omega)
    (@strtol_of_scanDigits _ [high.char, middle.char, low.char] _ _ _ ?_ ?_ ?_ ?_ ?_)
  · rw [signed]
  · rw [signed]
    change (if _ ∧ _ ∧ _ ∧ isxdigit high.char = true then _ else _) = _
    rw [if_pos ⟨rfl, rfl, Or.inl rfl, high.isHex⟩]
  · simp [high.digit_eq]
  · simp [scanDigits, high.digit_eq, middle.digit_eq, low.digit_eq]
  · simp only [longMax]
    omega

/-! ## Records -/

/-- A data record: an address of three digits, up to six bytes of two digits, and
the rest of the line. -/
structure DataRecord where
  high : HexDigit
  middle : HexDigit
  low : HexDigit
  data : List (HexDigit × HexDigit)
  short : data.length ≤ 6
  tail : Text
  oneLine : newline ∉ tail

/-- A comment record is its tail behind blank columns. -/
structure CommentRecord where
  tail : Text
  oneLine : newline ∉ tail

/-- One line of an object file. -/
inductive Record where
  | comment (record : CommentRecord)
  | data (record : DataRecord)

namespace DataRecord

def address (r : DataRecord) : Int :=
  ((r.high.value * 16 + r.middle.value) * 16 + r.low.value : Nat)

def bytes (r : DataRecord) : List Byte :=
  r.data.map fun pair => BitVec.ofNat 8 (pair.1.value * 16 + pair.2.value)

/-- The character `offset` columns behind the start of the data: a digit of a byte,
or a space behind the last byte. -/
def dataColumn (r : DataRecord) (offset : Nat) : Byte :=
  match r.data[offset / 2]? with
  | some pair => if offset % 2 = 0 then pair.1.char else pair.2.char
  | none => space

def column (r : DataRecord) : Nat → Byte
  | 2 => ch '0'
  | 3 => ch 'x'
  | 4 => r.high.char
  | 5 => r.middle.char
  | 6 => r.low.char
  | 7 => ch ':'
  | 22 => ch '|'
  | n => if 9 ≤ n then r.dataColumn (n - 9) else space

end DataRecord

namespace Record

/-- The character in one of the first 23 columns: a comment record has spaces up to the bar. -/
def column : Record → Nat → Byte
  | .comment _, n => if n = 22 then ch '|' else space
  | .data r, n => r.column n

def tail : Record → Text
  | .comment r => r.tail
  | .data r => r.tail

def columns (r : Record) : Text := (List.range 23).map r.column

def line (r : Record) : Text := r.columns ++ r.tail

/-- The address of the record; a comment record has no bytes there. -/
def address : Record → Int
  | .comment _ => 0
  | .data r => r.address

def bytes : Record → List Byte
  | .comment _ => []
  | .data r => r.bytes

/-- The address of the last byte given, when `last` is the one of the records before. -/
def lastByte (r : Record) (last : Int) : Int :=
  if r.bytes = [] then last else r.address + r.bytes.length - 1

def Follows (r : Record) (last : Int) : Prop :=
  match r with
  | .comment _ => True
  | .data r => last < r.address

end Record

/-- Each data record's address is greater than the address of the last byte given
by the records before it; `last` is `-1` before the first byte. -/
def InOrder : Int → List Record → Prop
  | _, [] => True
  | last, r :: rest => r.Follows last ∧ InOrder (r.lastByte last) rest

instance (r : Record) (last : Int) : Decidable (r.Follows last) :=
  match r with
  | .comment _ => isTrue trivial
  | .data r => inferInstanceAs (Decidable (last < r.address))

instance decidableInOrder :
    (last : Int) → (records : List Record) → Decidable (InOrder last records)
  | _, [] => isTrue trivial
  | last, r :: rest =>
      have := decidableInOrder (r.lastByte last) rest
      inferInstanceAs (Decidable (_ ∧ _))

def fileText (terminated : Bool) : List Record → Text
  | [] => []
  | [r] => r.line ++ if terminated then [newline] else []
  | r :: next :: rest => r.line ++ newline :: fileText terminated (next :: rest)

/-! ## Columns -/

namespace DataRecord

theorem dataColumn_even (r : DataRecord) {index : Nat} (small : index < r.data.length) :
    r.dataColumn (2 * index) = (r.data[index]).1.char := by
  unfold dataColumn
  rw [Nat.mul_div_cancel_left index (by decide), List.getElem?_eq_getElem small]
  simp

theorem dataColumn_odd (r : DataRecord) {index : Nat} (small : index < r.data.length) :
    r.dataColumn (2 * index + 1) = (r.data[index]).2.char := by
  unfold dataColumn
  rw [show (2 * index + 1) / 2 = index by omega, List.getElem?_eq_getElem small]
  simp

theorem dataColumn_behind (r : DataRecord) {offset : Nat} (behind : 2 * r.data.length ≤ offset) :
    r.dataColumn offset = space := by
  unfold dataColumn
  rw [List.getElem?_eq_none (by omega)]

theorem dataColumn_cases (r : DataRecord) (offset : Nat) :
    isxdigit (r.dataColumn offset) = true ∨ r.dataColumn offset = space := by
  unfold dataColumn
  cases r.data[offset / 2]? with
  | none => exact Or.inr rfl
  | some pair =>
      left
      dsimp only
      split
      · exact pair.1.isHex
      · exact pair.2.isHex

theorem column_data (r : DataRecord) {offset : Nat} (small : offset ≤ 12) :
    r.column (9 + offset) = r.dataColumn offset := by
  unfold column
  split <;> first | omega | skip
  rw [if_pos (by omega), Nat.add_sub_cancel_left]

end DataRecord

/-- No column holds a NUL or a newline. -/
theorem Record.column_printable (r : Record) (n : Nat) :
    r.column n ≠ nul ∧ r.column n ≠ newline := by
  have digit (d : HexDigit) : d.char ≠ nul ∧ d.char ≠ newline :=
    (not_special_of_isxdigit d.char d.isHex).2.2.2.2
  cases r with
  | comment r =>
      change (if n = 22 then ch '|' else space) ≠ nul ∧ (if n = 22 then ch '|' else space) ≠ newline
      split <;> decide
  | data r =>
      change r.column n ≠ nul ∧ r.column n ≠ newline
      unfold DataRecord.column
      split <;> first | decide | exact digit _ | skip
      split
      · rcases r.dataColumn_cases (_ - 9) with isHex | blank
        · exact (not_special_of_isxdigit _ isHex).2.2.2.2
        · rw [blank]
          decide
      · decide

/-- The buffer shows the record in its first 23 columns. -/
def Shows (buf : Buffer) (r : Record) : Prop := ∀ n, n < 23 → buf.get n = r.column n

theorem Record.nul_notMem_columns (r : Record) : nul ∉ r.columns := by
  intro member
  obtain ⟨column, -, isNul⟩ := List.mem_map.mp member
  exact (r.column_printable column).1 isNul

theorem Record.newline_notMem_line (r : Record) : newline ∉ r.line := by
  intro member
  rcases List.mem_append.mp member with inColumns | inTail
  · obtain ⟨column, -, isNewline⟩ := List.mem_map.mp inColumns
    exact (r.column_printable column).2 isNewline
  · cases r with
    | comment r => exact r.oneLine inTail
    | data r => exact r.oneLine inTail

@[simp] theorem Record.length_columns (r : Record) : r.columns.length = 23 := by
  simp [Record.columns]

theorem Record.getElem_columns (r : Record) {n : Nat} (inside : n < r.columns.length) :
    r.columns[n] = r.column n := by
  simp [Record.columns]

/-- Copying a line that starts with a record shows the record, whatever the buffer held. -/
theorem strlcpy_shows (buf : Buffer) (r : Record) (more : Text) :
    Shows (strlcpy buf (r.line ++ more)) r := by
  intro n small
  have starts : copied (r.line ++ more) = r.columns ++ (cstring (r.tail ++ more)).take 1 := by
    rw [copied, Record.line, List.append_assoc, cstring_append r.nul_notMem_columns,
      List.take_append, r.length_columns,
      List.take_of_length_le (by rw [r.length_columns]; decide)]
    rfl
  have inside : n < r.columns.length := by rwa [r.length_columns]
  have within : n ≤ (r.columns ++ (cstring (r.tail ++ more)).take 1).length := by
    rw [List.length_append]
    omega
  rw [strlcpy_get buf _ (Nat.lt_trans small (by decide)), starts, if_pos within,
    List.getElem?_append_left inside, List.getElem?_eq_getElem inside, r.getElem_columns]
  rfl

theorem Buffer.ofFn_eq (buf : Buffer) : List.ofFn buf = (List.range recordLen).map buf.get := by
  refine List.ext_getElem (by simp) fun n first second => ?_
  have inside : n < recordLen := by simpa using second
  rw [List.getElem_ofFn, List.getElem_map, List.getElem_range, Buffer.get, dif_pos inside]

theorem Buffer.text_eq_append {buf : Buffer} {n : Nat} (inside : n ≤ recordLen)
    (clean : ∀ i, i < n → buf.get i ≠ nul) :
    ∃ more, buf.text = (List.range n).map buf.get ++ more := by
  have notMem : nul ∉ (List.range n).map buf.get := by
    intro member
    obtain ⟨i, below, isNul⟩ := List.mem_map.mp member
    exact clean i (List.mem_range.mp below) isNul
  obtain ⟨rest, whole⟩ := Nat.exists_eq_add_of_le inside
  have columns : List.ofFn buf =
      (List.range n).map buf.get ++ ((List.range rest).map (n + ·)).map buf.get := by
    rw [buf.ofFn_eq, whole, List.range_add, List.map_append]
  exact ⟨_, by rw [Buffer.text, columns, cstring_append notMem]⟩

theorem Shows.text {buf : Buffer} {r : Record} (shows : Shows buf r) :
    ∃ more, buf.text = r.columns ++ more := by
  have columns : (List.range 23).map buf.get = r.columns :=
    List.map_congr_left fun n below => shows n (List.mem_range.mp below)
  rw [← columns]
  refine Buffer.text_eq_append (by decide) fun n below => ?_
  rw [shows n below]
  exact (r.column_printable n).1

/-! ## Fields of a record -/

theorem grabAddress_eq {buf : Buffer} {first second : Byte} {high middle low : HexDigit}
    {others : Text} (blank0 : isblank first = true) (blank1 : isblank second = true)
    (front : buf.text =
      [first, second, ch '0', ch 'x', high.char, middle.char, low.char] ++ ch ':' :: others) :
    grabAddress buf recordLen =
      ((((high.value * 16 + middle.value) * 16 + low.value : Nat) : Int), false) := by
  have notColon {c : Byte} (blank : isblank c = true) : c ≠ ch ':' := by
    rintro rfl
    exact absurd blank (by decide)
  have before : ∀ c ∈ [first, second, ch '0', ch 'x', high.char, middle.char, low.char],
      decide (c ≠ ch ':') = true := by
    have digit (d : HexDigit) : d.char ≠ ch ':' := (not_special_of_isxdigit d.char d.isHex).2.2.2.1
    simp only [List.forall_mem_cons, decide_eq_true_eq]
    exact ⟨notColon blank0, notColon blank1, by decide, by decide, digit _, digit _, digit _,
      nofun⟩
  have span : strcspn buf.text (ch ':') = 7 := by
    rw [strcspn, front, List.takeWhile_append_of_pos before]
    simp
  have converted : strtoint (buf.text.take 7) 16 =
      ((high.value * 16 + middle.value) * 16 + low.value : Nat) := by
    rw [front]
    exact strtoint_address blank0 blank1 high middle low
  have proper : decide ((((high.value * 16 + middle.value) * 16 + low.value : Nat) : Int) = -1) =
      false := decide_eq_false (by omega)
  unfold grabAddress
  rw [span, if_neg (by decide), converted]
  dsimp only
  rw [proper]

theorem grabDataByte_eq {buf : Buffer} {byteNum : Nat} {high low : HexDigit}
    (first : buf.get (byteNum * 2 + 7) = high.char)
    (second : buf.get (byteNum * 2 + 7 + 1) = low.char) :
    grabDataByte buf byteNum = (BitVec.ofNat 8 (high.value * 16 + low.value), false) := by
  have clean : nul ∉ [high.char, low.char] := by
    have digit (d : HexDigit) : nul ≠ d.char :=
      (not_special_of_isxdigit d.char d.isHex).2.2.2.2.1.symm
    simp only [List.mem_cons, not_or, List.not_mem_nil, not_false_eq_true, and_true]
    exact ⟨digit _, digit _⟩
  have number : ¬ ((high.value * 16 + low.value : Nat) : Int) = -1 := by omega
  unfold grabDataByte
  dsimp only
  rw [first, second, cstring_of_notMem clean, strtoint_byte, if_neg number, BitVec.ofInt_natCast]

/-! ## The checks on a record -/

section Data

variable {buf : Buffer} {r : DataRecord} (shows : Shows buf (.data r))
include shows

theorem Shows.get_data {offset : Nat} (small : offset ≤ 12) :
    buf.get (9 + offset) = r.dataColumn offset :=
  (shows _ (by omega)).trans (r.column_data small)

theorem Shows.get_pair {index : Nat} (small : index < r.data.length) :
    buf.get (9 + 2 * index) = (r.data[index]).1.char ∧
      buf.get (9 + 2 * index + 1) = (r.data[index]).2.char := by
  have short := r.short
  rw [Nat.add_assoc]
  exact ⟨(shows.get_data (by omega)).trans (r.dataColumn_even small),
    (shows.get_data (by omega)).trans (r.dataColumn_odd small)⟩

theorem Shows.get_behind {offset : Nat} (behind : 2 * r.data.length ≤ offset)
    (small : offset ≤ 12) : buf.get (9 + offset) = space :=
  (shows.get_data small).trans (r.dataColumn_behind behind)

theorem Shows.pair {index : Nat} (small : index < r.data.length) : Pair buf index := by
  obtain ⟨first, second⟩ := shows.get_pair small
  constructor
  · rw [first]
    exact (r.data[index]).1.isHex
  · rw [show 10 + 2 * index = 9 + 2 * index + 1 by omega, second]
    exact (r.data[index]).2.isHex

theorem Shows.noDigit {index : Nat} (behind : r.data.length ≤ index) (small : index ≤ 6) :
    isxdigit (buf.get (9 + 2 * index)) = false := by
  rw [shows.get_behind (by omega) (by omega)]
  rfl

theorem Shows.hasdata : hasdata buf recordLen = r.data.length := by
  refine hasdata_eq (fun index small => shows.pair small) ?_ r.short
  intro pair
  exact Bool.false_ne_true ((shows.noDigit (Nat.le_refl _) r.short).symm.trans pair.1)

theorem Shows.validatedata (nonempty : r.data.length ≠ 0) : validatedata buf = true := by
  obtain ⟨more, text⟩ := shows.text
  have long : 21 ≤ buf.text.length := by
    rw [text, List.length_append, Record.length_columns]
    omega
  rw [validatedata_iff long]
  refine ⟨shows.pair (Nat.pos_of_ne_zero nonempty), fun index _ small digit => ?_⟩
  rcases Nat.lt_or_ge index r.data.length with isByte | behind
  · exact (shows.pair isByte).2
  · exact absurd ((shows.noDigit behind (by omega)).symm.trans digit) Bool.false_ne_true

theorem Shows.grabAddress : grabAddress buf recordLen = (r.address, false) := by
  obtain ⟨more, text⟩ := shows.text
  have spaces : isblank space = true := rfl
  exact grabAddress_eq spaces spaces text

theorem Shows.grabDataByte {index : Nat} (small : index < r.bytes.length) :
    grabDataByte buf (1 + index) = (r.bytes[index], false) := by
  have isByte : index < r.data.length := by simpa [DataRecord.bytes] using small
  obtain ⟨first, second⟩ := shows.get_pair isByte
  have column : 9 + 2 * index = (1 + index) * 2 + 7 := by omega
  rw [column] at first second
  rw [grabDataByte_eq first second]
  simp [DataRecord.bytes]

/-- A record in order is a valid line with an address. -/
theorem Shows.validline {prev_addr : Int} (inOrder : prev_addr < r.address) :
    validline buf recordLen prev_addr = true ∧ hasaddress buf = true := by
  have short := r.short
  have digits : isxdigit (buf.get 4) = true ∧ isxdigit (buf.get 5) = true ∧
      isxdigit (buf.get 6) = true := by
    rw [shows 4 (by decide), shows 5 (by decide), shows 6 (by decide)]
    exact ⟨r.high.isHex, r.middle.isHex, r.low.isHex⟩
  have isBlank {c : Byte} (isSpace : c = space) : isblank c = true := by
    rw [isSpace]
    rfl
  have columns : DataColumns buf :=
    { blank0 := isBlank (shows 0 (by decide))
      blank1 := isBlank (shows 1 (by decide))
      blank8 := isBlank (shows 8 (by decide))
      blank21 := isBlank (shows.get_behind (by omega) (Nat.le_refl 12))
      zero := shows 2 (by decide)
      x := shows 3 (by decide)
      colon := shows 7 (by decide) }
  have address : validateaddress buf recordLen prev_addr = true := by
    unfold validateaddress
    rw [(hashexdigits_address_iff buf).mpr digits, shows.grabAddress]
    simp [Int.not_lt.mpr (Int.le_of_lt inOrder)]
  constructor
  · rw [validline_iff]
    refine ⟨shows 22 (by decide), Or.inr ⟨(isdatarecord_iff buf).mpr columns, address, ?_⟩⟩
    intro nonzero
    exact shows.validatedata (shows.hasdata ▸ nonzero)
  · exact (hasaddress_iff buf).mpr ⟨⟨columns.zero, columns.x, columns.colon⟩, digits⟩

end Data

theorem shows_comment {buf : Buffer} {r : CommentRecord} (shows : Shows buf (.comment r))
    (prev_addr : Int) : validline buf recordLen prev_addr = true ∧ hasaddress buf = false := by
  have blank (n : Nat) (small : n < 22) : buf.get n = space :=
    (shows n (by omega)).trans (if_neg (by omega))
  have bar : buf.get 22 = ch '|' := shows 22 (by decide)
  constructor
  · exact (validline_iff buf prev_addr).mpr ⟨bar, Or.inl ((iscommentrecord_iff buf).mpr blank)⟩
  · unfold hasaddress
    rw [blank 2 (by decide)]
    rfl

/-! ## Loading records -/

theorem storeData_eq {buf : Buffer} {bytes : List Byte} {byteNumber : Nat} {loop : ByteLoop}
    (given : ∀ index (small : index < bytes.length),
      grabDataByte buf (byteNumber + index) = (bytes[index], false))
    (inside : 0 ≤ loop.byteAddress ∧ loop.byteAddress + bytes.length ≤ 65536) :
    storeData buf bytes.length byteNumber loop =
      (⟨putBytes loop.memory loop.byteAddress bytes, loop.byteAddress + bytes.length,
        loop.stored ++ addressRun loop.byteAddress bytes.length⟩, false) := by
  induction bytes generalizing byteNumber loop with
  | nil => simp [storeData, putBytes, addressRun]
  | cons data rest ih =>
      rw [List.length_cons] at inside
      have first : grabDataByte buf byteNumber = (data, false) := given 0 (Nat.succ_pos _)
      have range : InRange 65536 loop.byteAddress := by
        unfold InRange
        omega
      have stored := putByte_noError loop.memory range data
      rw [List.length_cons, storeData, first]
      dsimp only
      rw [stored, if_neg Bool.false_ne_true, if_neg Bool.false_ne_true, ih ?_ ?_]
      · rw [putBytes, addressRun_succ, List.append_assoc]
        congr 2
        push_cast
        omega
      · intro index small
        rw [show byteNumber + 1 + index = byteNumber + (index + 1) by omega]
        exact given (index + 1) (Nat.succ_lt_succ small)
      · dsimp only
        omega

theorem DataRecord.address_bounds (r : DataRecord) :
    0 ≤ r.address ∧ r.address + r.bytes.length ≤ 65536 := by
  have high := r.high.value_lt
  have middle := r.middle.value_lt
  have low := r.low.value_lt
  have length : r.bytes.length = r.data.length := by simp [DataRecord.bytes]
  have short := r.short
  unfold DataRecord.address
  omega

theorem loadLine_record {s : LoadState} (r : Record) (more : Text)
    (inOrder : r.Follows s.prevaddr) :
    ∃ next, loadLine s (r.line ++ more) = .ok next ∧
      next.memory = putBytes s.memory r.address r.bytes ∧
      next.prevaddr = r.lastByte s.prevaddr := by
  have shows := strlcpy_shows s.buf r more
  unfold loadLine
  dsimp only
  cases r with
  | comment r =>
      obtain ⟨valid, noAddress⟩ := shows_comment shows s.prevaddr
      rw [valid, noAddress]
      exact ⟨_, rfl, rfl, rfl⟩
  | data r =>
      obtain ⟨valid, hasAddress⟩ := shows.validline inOrder
      have length : r.bytes.length = r.data.length := by simp [DataRecord.bytes]
      rw [valid, hasAddress, shows.grabAddress, shows.hasdata, ← length]
      have stored := @storeData_eq (strlcpy s.buf ((Record.data r).line ++ more)) r.bytes 1
        ⟨s.memory, r.address, s.stored⟩ (fun index small => shows.grabDataByte small)
        r.address_bounds
      simp only [stored]
      by_cases empty : r.bytes = []
      · refine ⟨_, if_neg (not_not.mpr (by rw [empty]; rfl)), ?_, ?_⟩
        · change s.memory = putBytes s.memory r.address r.bytes
          rw [empty]
          rfl
        · exact (if_pos empty).symm
      · have numBytes : r.bytes.length ≠ 0 := fun zero => empty (List.length_eq_zero_iff.mp zero)
        refine ⟨_, if_pos numBytes, rfl, ?_⟩
        exact (if_neg empty).symm

/-! ## Loading files -/

def putRecords (memory : Memory) (records : List Record) : Memory :=
  records.foldl (fun memory r => putBytes memory r.address r.bytes) memory

/-- Loading a file of records in order stores their bytes. -/
theorem loadLines_fileText {s : LoadState} {records : List Record}
    (inOrder : InOrder s.prevaddr records) (terminated : Bool) :
    ∃ final, loadLines s (getlines (fileText terminated records)) = .ok final ∧
      final.memory = putRecords s.memory records := by
  induction records generalizing s with
  | nil => exact ⟨s, rfl, rfl⟩
  | cons r rest ih =>
      obtain ⟨follows, later⟩ := inOrder
      cases rest with
      | nil =>
          cases terminated with
          | true =>
              obtain ⟨next, line, memory, -⟩ := loadLine_record r [newline] follows
              refine ⟨next, ?_, memory⟩
              rw [fileText, if_pos rfl, getlines_line r.newline_notMem_line, loadLines_of_ok line]
              rfl
          | false =>
              obtain ⟨next, line, memory, -⟩ := loadLine_record r [] follows
              have nonempty : r.line ≠ [] := fun empty => by
                have length := congrArg List.length empty
                rw [Record.line, List.length_append, r.length_columns] at length
                exact absurd length (by simp)
              refine ⟨next, ?_, memory⟩
              rw [List.append_nil] at line
              rw [fileText, if_neg Bool.false_ne_true, List.append_nil,
                getlines_unterminated r.newline_notMem_line nonempty, loadLines_of_ok line]
              rfl
      | cons second others =>
          obtain ⟨next, line, memory, prevaddr⟩ := loadLine_record r [newline] follows
          rw [← prevaddr] at later
          obtain ⟨final, loaded, result⟩ := ih later
          refine ⟨final, ?_, ?_⟩
          · rw [fileText, getlines_line r.newline_notMem_line, loadLines_of_ok line, loaded]
          · rw [result, memory]
            rfl

/-- A record with bytes lies behind the bytes of the records before it. -/
theorem lt_address_of_inOrder {last : Int} {records : List Record} (inOrder : InOrder last records)
    {r : Record} (member : r ∈ records) (nonempty : r.bytes ≠ []) : last < r.address := by
  induction records generalizing last with
  | nil => exact nomatch member
  | cons head rest ih =>
      obtain ⟨follows, later⟩ := inOrder
      rcases List.mem_cons.mp member with rfl | member
      · cases r with
        | comment r => exact absurd rfl nonempty
        | data r => exact follows
      · refine Int.lt_of_le_of_lt ?_ (ih later member)
        unfold Record.lastByte
        split
        · exact Int.le_refl last
        · case isFalse bytes =>
            have long := List.length_pos_of_ne_nil bytes
            cases head with
            | comment head => exact absurd rfl bytes
            | data head =>
                have below : last < head.address := follows
                change last ≤ head.address + _ - 1
                omega

theorem getByte_putRecords_other {memory : Memory} {records : List Record} {address : Int}
    (outside : ∀ r ∈ records, ¬ (r.address ≤ address ∧ address < r.address + r.bytes.length)) :
    getByte (putRecords memory records) address = getByte memory address := by
  induction records generalizing memory with
  | nil => rfl
  | cons r rest ih =>
      have first := outside r List.mem_cons_self
      have others : getByte (putRecords (putBytes memory r.address r.bytes) rest) address =
          getByte (putBytes memory r.address r.bytes) address :=
        ih fun other member => outside other (List.mem_cons_of_mem _ member)
      exact others.trans (getByte_putBytes_other first)

theorem getByte_putRecords {memory : Memory} {records : List Record} {last : Int}
    (inOrder : InOrder last records) {r : DataRecord} (member : .data r ∈ records) {offset : Nat}
    (small : offset < r.bytes.length) :
    getByte (putRecords memory records) (r.address + offset) = (r.bytes[offset], false) := by
  induction records generalizing memory last with
  | nil => exact nomatch member
  | cons head rest ih =>
      obtain ⟨follows, later⟩ := inOrder
      rcases List.mem_cons.mp member with rfl | member
      · change getByte (putRecords (putBytes memory r.address r.bytes) rest) _ = _
        refine (getByte_putRecords_other fun other otherMember inside => ?_).trans
          (getByte_putBytes r.address_bounds small)
        have otherBytes : other.bytes ≠ [] := by
          intro empty
          rw [empty, List.length_nil] at inside
          omega
        have bytes : r.bytes ≠ [] := List.ne_nil_of_length_pos (Nat.zero_lt_of_lt small)
        have behind := lt_address_of_inOrder later otherMember otherBytes
        rw [Record.lastByte, if_neg (show (Record.data r).bytes ≠ [] from bytes)] at behind
        change r.address + r.bytes.length - 1 < other.address at behind
        omega
      · exact ih later member

/-- For every sequence of records in order, with or without a final newline:
`load` on zeroed memory returns `TRUE`, every byte of every data record is at its
address, and every other byte is zero. -/
theorem load_fileText (fileName : Text) (validName : validatefilename fileName = true)
    (records : List Record) (inOrder : InOrder (-1) records) (terminated : Bool) (buf : Buffer) :
    let loaded := load fileName (some (fileText terminated records)) buf initMemory
    loaded.result = true ∧
      (∀ r, .data r ∈ records → ∀ offset : Nat, ∀ small : offset < r.bytes.length,
        getByte loaded.memory (r.address + offset) = (r.bytes[offset], false)) ∧
      ∀ address, InRange 65536 address →
        (∀ r, .data r ∈ records →
          ¬ (r.address ≤ address ∧ address < r.address + r.bytes.length)) →
        getByte loaded.memory address = (0, false) := by
  intro loaded
  have fromStart : InOrder (LoadState.start buf initMemory).prevaddr records := inOrder
  obtain ⟨final, lines, memory⟩ := loadLines_fileText fromStart terminated
  have result : loaded = ⟨true, final.memory, final.stored, []⟩ := load_of_ok validName lines
  rw [result]
  dsimp only
  rw [memory]
  refine ⟨rfl, fun r member offset small => getByte_putRecords inOrder member small,
    fun address inside outside => ?_⟩
  refine (getByte_putRecords_other fun r member => ?_).trans (getByte_initMemory inside)
  cases r with
  | comment r =>
      change ¬ (0 ≤ address ∧ address < 0 + ((0 : Nat) : Int))
      omega
  | data r => exact outside r member

/-- A comment, the record `  0x1fe: 2Ab7           | .word` of two bytes, and the record
`  0x200: 0F             | .byte` of the byte behind them. -/
def wordThenByte : List Record :=
  [.comment ⟨ascii " # three bytes", by decide⟩,
    .data ⟨⟨ch '1', by decide⟩, ⟨ch 'f', by decide⟩, ⟨ch 'e', by decide⟩,
      [(⟨ch '2', by decide⟩, ⟨ch 'A', by decide⟩), (⟨ch 'b', by decide⟩, ⟨ch '7', by decide⟩)],
      by decide, ascii " .word", by decide⟩,
    .data ⟨⟨ch '2', by decide⟩, ⟨ch '0', by decide⟩, ⟨ch '0', by decide⟩,
      [(⟨ch '0', by decide⟩, ⟨ch 'F', by decide⟩)], by decide, ascii " .byte", by decide⟩]

/-- Loading these records, without a final newline. -/
theorem load_fileText_wordThenByte :
    let loaded := load (ascii "a.yo") (some (fileText false wordThenByte)) (fun _ => nul)
      initMemory
    loaded.result = true ∧
      (∀ r, .data r ∈ wordThenByte → ∀ offset : Nat, ∀ small : offset < r.bytes.length,
        getByte loaded.memory (r.address + offset) = (r.bytes[offset], false)) ∧
      ∀ address, InRange 65536 address →
        (∀ r, .data r ∈ wordThenByte →
          ¬ (r.address ≤ address ∧ address < r.address + r.bytes.length)) →
        getByte loaded.memory address = (0, false) :=
  load_fileText (ascii "a.yo") (by decide) wordThenByte (by decide) false
    (fun _ => nul)

end Yess
