import Yess.Isa.Memory
import Yess.Loader.Records

/-!
# The loader of the simulator

`load_mem` reads an object file with less care than `load` does.  On the files
that are records in order, both leave the same bytes.
-/

namespace Yess.Isa

open Lib.BitField Lib.CString Lib.ByteStore

/-- `LINELEN`: the size of the buffer that `fgets` fills. -/
abbrev lineLen : Nat := 4096

abbrev memSize : Nat := 8192

def hex2dig (c : Byte) : Nat :=
  if ch '0' ≤ c ∧ c ≤ ch '9' then c.toNat - (ch '0').toNat
  else if ch 'A' ≤ c ∧ c ≤ ch 'Z' then c.toNat - (ch 'A').toNat + 10
  else c.toNat - (ch 'a').toNat + 10

/-- How a part of the file is loaded: into memory, with the number of bytes so far;
with an error; or past the end of `hexcode`, or of an `int`. -/
inductive Loading where
  | loaded (m : Mem) (byteCnt : Nat)
  | refused
  | undefined

/-- `bytepos`: the number that the digits stand for, and the text behind them. -/
def scanAddress : Text → Nat → Nat × Text
  | [], bytepos => (bytepos, [])
  | c :: rest, bytepos =>
      if isxdigit c then scanAddress rest (bytepos * 16 + hex2dig c) else (bytepos, c :: rest)

/-- The code of a line: bytes of two digits.  `index` counts the digits that are copied to
the 15 characters of `hexcode`. -/
def scanCode : Mem → Nat → Text → Nat → Nat → Loading
  | m, byteCnt, high :: low :: rest, bytepos, index =>
      if isxdigit high && isxdigit low then
        if bytepos ≥ m.len then .refused
        else if index + 1 ≥ 15 then .undefined
        else
          let byte : Byte := BitVec.ofNat 8 (hex2dig high * 16 + hex2dig low)
          scanCode { m with contents := Function.update m.contents bytepos byte } (byteCnt + 1) rest
            (bytepos + 1) (index + 2)
      else .loaded m byteCnt
  | m, byteCnt, _, _, _ => .loaded m byteCnt

/-- One line of the file.  A line that does not start with `0x` is skipped. -/
def loadLine (m : Mem) (byteCnt : Nat) (buf : Text) : Loading :=
  match buf.dropWhile isspace with
  | zero :: x :: rest =>
      if zero = ch '0' ∧ (x = ch 'x' ∨ x = ch 'X') then
        let address := scanAddress rest 0
        if (address.1 : Int) > intMax then .undefined
        else
          match address.2.dropWhile isspace with
          | colon :: code =>
              if colon = ch ':' then scanCode m byteCnt (code.dropWhile isspace) address.1 0
              else .refused
          | [] => .refused
      else .loaded m byteCnt
  | _ => .loaded m byteCnt

def loadLines : Mem → Nat → List Text → Loading
  | m, byteCnt, [] => .loaded m byteCnt
  | m, byteCnt, buf :: rest =>
      match loadLine m byteCnt buf with
      | .loaded m byteCnt => loadLines m byteCnt rest
      | other => other

def loadMem (m : Mem) (infile : Text) : Loading := loadLines m 0 (fgetsLines lineLen infile)

/-- `main` of `yis`: a file that gives no byte is not run. -/
def main (maxSteps : Nat) (codeFile : Text) : Option Run :=
  match loadMem (initMem memSize) codeFile with
  | .loaded m byteCnt => if byteCnt = 0 then none else some (yis maxSteps m)
  | _ => none

/-! ## One record -/

/-- The digits that the simulator reads have the values that the loader gives them. -/
theorem digit_hex2dig : ∀ c : Byte, isxdigit c = true → digit 16 c = some (hex2dig c) := by
  decide +kernel

theorem hex2dig_char (d : HexDigit) : hex2dig d.char = d.value :=
  Option.some.inj ((digit_hex2dig d.char d.isHex).symm.trans d.digit_eq)

theorem SameBytes.update {m : Mem} {memory : Memory} (same : SameBytes m memory) {pos : Nat}
    (inside : pos < m.len) (byte : Byte) :
    SameBytes { m with contents := Function.update m.contents pos byte }
      (putByte memory pos byte).1 := by
  refine ⟨same.small, fun other below => ?_⟩
  have small := same.small
  have range : InRange 65536 pos := ⟨Int.natCast_nonneg _, by omega⟩
  rw [bytesOf_putByte, if_pos range, Int.toNat_natCast]
  dsimp only at below ⊢
  by_cases here : other = pos
  · rw [here, Function.update_self, load_store_same _ (by omega)]
  · rw [Function.update_of_ne here, load_store_other _ _ here, same.byte other below]

theorem scanCode_digits {data : List (HexDigit × HexDigit)} {m : Mem} {memory : Memory}
    (same : SameBytes m memory) {bytepos index : Nat} (inside : bytepos + data.length ≤ m.len)
    (fits : index + 2 * data.length ≤ 14) (byteCnt : Nat) {c : Byte} (stop : isxdigit c = false)
    (more : Text) :
    ∃ next, scanCode m byteCnt (digits data ++ c :: more) bytepos index =
        .loaded next (byteCnt + data.length) ∧ next.len = m.len ∧
      SameBytes next (putBytes memory bytepos
        (data.map fun pair => BitVec.ofNat 8 (pair.1.value * 16 + pair.2.value))) := by
  induction data generalizing m memory bytepos index byteCnt with
  | nil =>
      refine ⟨m, ?_, rfl, same⟩
      cases more with
      | nil => rfl
      | cons low more =>
          change (if isxdigit c && isxdigit low then _ else _) = _
          rw [stop]
          rfl
  | cons pair rest ih =>
      rw [List.length_cons] at inside fits
      have byte : (BitVec.ofNat 8 (hex2dig pair.1.char * 16 + hex2dig pair.2.char) : Byte) =
          BitVec.ofNat 8 (pair.1.value * 16 + pair.2.value) := by
        rw [hex2dig_char, hex2dig_char]
      have stored := same.update (show bytepos < m.len by omega)
        (BitVec.ofNat 8 (pair.1.value * 16 + pair.2.value))
      obtain ⟨next, loaded, len, sameBytes⟩ := @ih _ _ stored (bytepos + 1) (index + 2)
        (by dsimp only; omega) (by omega) (byteCnt + 1)
      refine ⟨next, ?_, len, ?_⟩
      · rw [digits, List.flatMap_cons]
        change scanCode m byteCnt (pair.1.char :: pair.2.char :: (digits rest ++ c :: more)) _ _ = _
        rw [scanCode, pair.1.isHex, pair.2.isHex, byte, Bool.and_self, if_pos rfl,
          if_neg (by omega), if_neg (by omega), loaded, List.length_cons, Nat.add_assoc,
          Nat.add_comm 1]
      · rw [Nat.cast_add] at sameBytes
        exact sameBytes

theorem scanAddress_digits (high middle low : HexDigit) (more : Text) :
    scanAddress (high.char :: middle.char :: low.char :: ch ':' :: more) 0 =
      ((high.value * 16 + middle.value) * 16 + low.value, ch ':' :: more) := by
  have colon : isxdigit (ch ':') = false := by decide
  simp [scanAddress, high.isHex, middle.isHex, low.isHex, colon, hex2dig_char]

/-- Behind the colon of a data record, white space is skipped up to its first digit or the
bar; behind its digits comes a character that is none. -/
theorem dropWhile_code (data : List (HexDigit × HexDigit)) (blanks : Nat) (more : Text) :
    ∃ c rest, isxdigit c = false ∧
      (space ::
          (digits data ++ (List.replicate blanks space ++ ch '|' :: more))).dropWhile isspace =
        digits data ++ c :: rest := by
  cases data with
  | nil =>
      refine ⟨ch '|', more, by decide, ?_⟩
      have blank : ∀ c ∈ List.replicate blanks space, isspace c = true := by
        intro c member
        rw [List.eq_of_mem_replicate member]
        decide
      rw [List.dropWhile_cons_of_pos (by decide)]
      change (List.replicate blanks space ++ ch '|' :: more).dropWhile isspace = ch '|' :: more
      rw [List.dropWhile_append_of_pos blank, List.dropWhile_cons_of_neg (by decide)]
  | cons pair others =>
      obtain ⟨c, rest, stop, behind⟩ : ∃ c rest, isxdigit c = false ∧
          List.replicate blanks space ++ ch '|' :: more = c :: rest := by
        cases blanks with
        | zero => exact ⟨ch '|', more, by decide, rfl⟩
        | succ blanks => exact ⟨space, _, by decide, rfl⟩
      refine ⟨c, rest, stop, ?_⟩
      have digit : isspace pair.1.char ≠ true := by
        rw [(not_special_of_isxdigit _ pair.1.isHex).1]
        exact Bool.false_ne_true
      rw [behind, List.dropWhile_cons_of_pos (by decide)]
      exact List.dropWhile_cons_of_neg digit

theorem loadLine_record {m : Mem} {memory : Memory} (same : SameBytes m memory) (byteCnt : Nat)
    (r : Record) (inside : r.address + r.bytes.length ≤ m.len) (more : Text) :
    ∃ next, loadLine m byteCnt (r.line ++ more) = .loaded next (byteCnt + r.bytes.length) ∧
      next.len = m.len ∧ SameBytes next (putBytes memory r.address r.bytes) := by
  unfold loadLine Record.line
  cases r with
  | comment r =>
      refine ⟨m, ?_, rfl, same⟩
      have bar : (((Record.comment r).columns ++ (Record.comment r).tail ++ more).dropWhile
          isspace) = ch '|' :: (r.tail ++ more) := by
        rw [List.append_assoc]
        rfl
      rw [bar]
      cases r.tail ++ more with
      | nil => rfl
      | cons next behind => rfl
  | data r =>
      have short := r.short
      have length : r.bytes.length = r.data.length := by simp [DataRecord.bytes]
      obtain ⟨c, rest, stop, code⟩ :=
        dropWhile_code r.data (13 - 2 * r.data.length) (r.tail ++ more)
      have bounds := r.address_bounds
      change r.address + r.bytes.length ≤ (m.len : Int) at inside
      have fits : ((r.high.value * 16 + r.middle.value) * 16 + r.low.value) + r.data.length ≤
          m.len := by
        unfold DataRecord.address at inside
        omega
      have small : ¬ ((((r.high.value * 16 + r.middle.value) * 16 + r.low.value : Nat) : Int) >
          intMax) := by
        unfold DataRecord.address at bounds
        simp only [intMax]
        omega
      obtain ⟨next, loaded, len, sameBytes⟩ :=
        scanCode_digits same fits (by omega : 0 + 2 * r.data.length ≤ 14) byteCnt stop rest
      refine ⟨next, ?_, len, sameBytes⟩
      rw [columns_data]
      simp only [List.append_assoc, List.cons_append, List.nil_append]
      rw [List.dropWhile_cons_of_pos (by decide), List.dropWhile_cons_of_pos (by decide),
        List.dropWhile_cons_of_neg (by decide)]
      dsimp only
      rw [if_pos ⟨rfl, Or.inl rfl⟩, scanAddress_digits]
      dsimp only
      rw [if_neg small, List.dropWhile_cons_of_neg (by decide)]
      dsimp only
      rw [if_pos rfl]
      exact (congrArg (scanCode m byteCnt · _ 0) code).trans (length ▸ loaded)

/-! ## Files of records -/

theorem getlines_fileText (terminated : Bool) (records : List Record) :
    List.Forall₂ (fun r line => line = r.line ∨ line = r.line ++ [newline]) records
      (getlines (fileText terminated records)) := by
  induction records with
  | nil => exact List.Forall₂.nil
  | cons r rest ih =>
      cases rest with
      | nil =>
          cases terminated with
          | true =>
              rw [fileText, if_pos rfl, getlines_line r.newline_notMem_line]
              exact .cons (Or.inr rfl) .nil
          | false =>
              have nonempty : r.line ≠ [] := fun empty => by
                have length := congrArg List.length empty
                rw [Record.line, List.length_append, r.length_columns] at length
                exact absurd length (by simp)
              rw [fileText, if_neg Bool.false_ne_true, List.append_nil,
                getlines_unterminated r.newline_notMem_line nonempty]
              exact .cons (Or.inl rfl) .nil
      | cons second others =>
          rw [fileText, getlines_line r.newline_notMem_line]
          exact .cons (Or.inr rfl) ih

def byteCount (records : List Record) : Nat := (records.map fun r => r.bytes.length).sum

theorem loadLines_records {m : Mem} {memory : Memory} (same : SameBytes m memory) (byteCnt : Nat)
    {records : List Record} (inside : ∀ r ∈ records, r.address + r.bytes.length ≤ m.len)
    {lines : List Text}
    (written : List.Forall₂ (fun r line => line = r.line ∨ line = r.line ++ [newline]) records
      lines) :
    ∃ next, loadLines m byteCnt lines = .loaded next (byteCnt + byteCount records) ∧
      next.len = m.len ∧ SameBytes next (putRecords memory records) := by
  induction written generalizing m memory byteCnt with
  | nil => exact ⟨m, rfl, rfl, same⟩
  | @cons r line records lines isLine _ ih =>
      obtain ⟨more, rfl⟩ : ∃ more, line = r.line ++ more := by
        rcases isLine with rfl | rfl
        · exact ⟨[], (List.append_nil _).symm⟩
        · exact ⟨_, rfl⟩
      obtain ⟨next, loaded, len, sameBytes⟩ :=
        loadLine_record same byteCnt r (inside r List.mem_cons_self) more
      obtain ⟨final, rest, finalLen, finalBytes⟩ := ih sameBytes (byteCnt + r.bytes.length)
        fun other member => len ▸ inside other (List.mem_cons_of_mem _ member)
      refine ⟨final, ?_, finalLen.trans len, finalBytes⟩
      rw [loadLines, loaded]
      dsimp only
      rw [rest, byteCount, byteCount, List.map_cons, List.sum_cons, Nat.add_assoc]

theorem length_lt_of_records {records : List Record} {lines : List Text} {size : Nat}
    (written : List.Forall₂ (fun r line => line = r.line ∨ line = r.line ++ [newline]) records
      lines) (short : ∀ r ∈ records, r.line.length + 1 < size) :
    ∀ line ∈ lines, line.length < size := by
  induction written with
  | nil => exact nofun
  | @cons r line records lines isLine _ ih =>
      have fits := short r List.mem_cons_self
      refine List.forall_mem_cons.mpr
        ⟨?_, ih fun r member => short r (List.mem_cons_of_mem _ member)⟩
      rcases isLine with rfl | rfl
      · omega
      · rw [List.length_append]
        exact fits

theorem record_end_le (r : Record) : r.address + r.bytes.length ≤ 4101 := by
  cases r with
  | comment r => change (0 : Int) + ((0 : Nat) : Int) ≤ 4101; decide
  | data r =>
      have high := r.high.value_lt
      have middle := r.middle.value_lt
      have low := r.low.value_lt
      have length : r.bytes.length = r.data.length := by simp [DataRecord.bytes]
      have short := r.short
      change r.address + (r.bytes.length : Int) ≤ 4101
      unfold DataRecord.address
      omega

theorem sameBytes_initMem : SameBytes (initMem memSize) initMemory := by
  refine ⟨by decide, fun pos below => ?_⟩
  have len : (initMem memSize).len = 8192 := rfl
  rw [load_bytesOf initMemory (by omega)]
  simp [initMem, initMemory, byteAt]

/-- The simulator accepts every file of records whose lines fit in its buffer, and loads
the bytes that `load` puts into memory. -/
theorem loadMem_fileText {records : List Record}
    (short : ∀ r ∈ records, r.line.length + 1 < lineLen) (terminated : Bool) :
    ∃ m, loadMem (initMem memSize) (fileText terminated records) =
        .loaded m (byteCount records) ∧ m.len = memSize ∧
      SameBytes m (putRecords initMemory records) := by
  have written := getlines_fileText terminated records
  have fits := length_lt_of_records written short
  have inside : ∀ r ∈ records, r.address + r.bytes.length ≤ (initMem memSize).len :=
    fun r _ => Int.le_trans (record_end_le r) (by decide)
  obtain ⟨m, loaded, len, sameBytes⟩ := loadLines_records sameBytes_initMem 0 inside written
  refine ⟨m, ?_, len, sameBytes⟩
  rw [loadMem, fgetsLines_eq_getlines (by decide) fits, loaded, Nat.zero_add]

end Yess.Isa
