import Yess.Loader.ObjectFile

/-!
# Loads that fail

A line that `validline` accepts is stored without an error, so a load that fails
stops at a line of which it has stored nothing.
-/

namespace Yess

open Lib.CString Lib.ByteStore

/-- Nothing that `load` does with a data record can fail; the bytes it takes stand
in the columns from 9 through 20 and go to addresses up to `0x1004`. -/
structure Storable (line : Buffer) : Prop where
  address : (grabAddress line recordLen).2 = false
  bytes : hasdata line recordLen ≤ 6
  data : ∀ index, index < hasdata line recordLen → (grabDataByte line (1 + index)).2 = false
  columns : ∀ (other : Buffer) (index : Nat), index < hasdata line recordLen →
    (∀ column, 9 ≤ column → column ≤ 20 → other.get column = line.get column) →
      grabDataByte other (1 + index) = grabDataByte line (1 + index)
  stores : ∀ (memory : Memory) (data : Byte) (index : Nat), index < hasdata line recordLen →
    (putByte memory ((grabAddress line recordLen).1 + index) data).2 = false
  inside : 0 ≤ (grabAddress line recordLen).1 ∧
    (grabAddress line recordLen).1 + hasdata line recordLen ≤ 0x1005

section

variable {line : Buffer} {prev_addr : Int} (checked : DataLine line prev_addr)
include checked

theorem DataLine.grabAddress :
    ∃ address : Nat, address ≤ 0xfff ∧ grabAddress line recordLen = ((address : Int), false) := by
  have columns := (isdatarecord_iff line).mp checked.isData
  obtain ⟨digit4, digit5, digit6⟩ := checked.digits
  have high := HexDigit.value_lt ⟨line.get 4, digit4⟩
  have middle := HexDigit.value_lt ⟨line.get 5, digit5⟩
  have low := HexDigit.value_lt ⟨line.get 6, digit6⟩
  have clean : ∀ i, i < 8 → line.get i ≠ nul := fun i small => checked.clean (by omega)
  obtain ⟨more, text⟩ := Buffer.text_eq_append (by decide) clean
  have front : line.text = [line.get 0, line.get 1, ch '0', ch 'x', line.get 4, line.get 5,
      line.get 6] ++ ch ':' :: more := by
    rw [text, ← columns.zero, ← columns.x, ← columns.colon]
    rfl
  refine ⟨_, ?_, @grabAddress_eq line _ _ ⟨_, digit4⟩ ⟨_, digit5⟩ ⟨_, digit6⟩ more
    columns.blank0 columns.blank1 front⟩
  omega

theorem DataLine.grabDataByte {index : Nat} (counted : index < hasdata line recordLen) :
    (grabDataByte line (1 + index)).2 = false := by
  obtain ⟨high, low⟩ := checked.hasdata_spec.2.1 index counted
  have column : 9 + 2 * index = (1 + index) * 2 + 7 := by omega
  have next : 10 + 2 * index = (1 + index) * 2 + 7 + 1 := by omega
  rw [column] at high
  rw [next] at low
  exact congrArg Prod.snd (@grabDataByte_eq line (1 + index) ⟨_, high⟩ ⟨_, low⟩ rfl rfl)

end

/-- What `validline` has checked is enough. -/
theorem storable_of_validline {line : Buffer} {prev_addr : Int}
    (valid : validline line recordLen prev_addr = true) (address : hasaddress line = true) :
    Storable line := by
  have checked := dataLine_of_validline valid address
  obtain ⟨number, small, grabbed⟩ := checked.grabAddress
  obtain ⟨bytes, -, -⟩ := checked.hasdata_spec
  constructor
  · rw [grabbed]
  · exact bytes
  · exact fun index counted => checked.grabDataByte counted
  · intro other index counted same
    unfold grabDataByte
    dsimp only
    rw [same _ (by omega) (by omega), same _ (by omega) (by omega)]
  · intro memory data index counted
    rw [grabbed]
    refine putByte_noError memory ?_ data
    unfold InRange
    dsimp only
    omega
  · rw [grabbed]
    dsimp only
    omega

def lineBytes (line : Buffer) : List Byte :=
  (List.range (hasdata line recordLen)).map fun index => (grabDataByte line (1 + index)).1

theorem Storable.storeData {line : Buffer} (storable : Storable line) (memory : Memory)
    (stored : List Int) :
    storeData line (hasdata line recordLen) 1
        ⟨memory, (grabAddress line recordLen).1, stored⟩ =
      (⟨putBytes memory (grabAddress line recordLen).1 (lineBytes line),
        (grabAddress line recordLen).1 + hasdata line recordLen,
        stored ++ addressRun (grabAddress line recordLen).1 (hasdata line recordLen)⟩, false) := by
  have length : (lineBytes line).length = hasdata line recordLen := by simp [lineBytes]
  have given : ∀ index (small : index < (lineBytes line).length),
      grabDataByte line (1 + index) = ((lineBytes line)[index], false) := by
    intro index small
    refine Prod.ext ?_ (storable.data index (length ▸ small))
    simp [lineBytes]
  have inside := storable.inside
  rw [← length] at inside ⊢
  exact storeData_eq given ⟨inside.1, Int.le_trans inside.2 (by decide)⟩

/-! ## One line -/

/-- What a line that is loaded leaves. -/
structure LineLoaded (s : LoadState) (record : Text) (next : LoadState) : Prop where
  valid : validline (strlcpy s.buf record) recordLen s.prevaddr = true
  buf : next.buf = strlcpy s.buf record
  lineno : next.lineno = s.lineno + 1
  stored : ∀ address ∈ next.stored, address ∈ s.stored ∨ (0 ≤ address ∧ address ≤ 0x1004)

theorem loadLine_of_validline {s : LoadState} {record : Text}
    (valid : validline (strlcpy s.buf record) recordLen s.prevaddr = true) :
    ∃ next, loadLine s record = .ok next ∧ LineLoaded s record next := by
  unfold loadLine
  dsimp only
  rw [valid, Bool.not_true, if_neg Bool.false_ne_true]
  by_cases address : hasaddress (strlcpy s.buf record) = true
  · have storable := storable_of_validline valid address
    rw [if_pos address, storable.address, if_neg Bool.false_ne_true]
    by_cases bytes : hasdata (strlcpy s.buf record) recordLen ≠ 0
    · rw [if_pos bytes, storable.storeData, if_neg Bool.false_ne_true]
      refine ⟨_, rfl, valid, rfl, rfl, fun written member => ?_⟩
      rcases List.mem_append.mp member with old | new
      · exact Or.inl old
      · obtain ⟨offset, below, rfl⟩ := List.mem_map.mp new
        have small := List.mem_range.mp below
        have inside := storable.inside
        omega
    · rw [if_neg bytes]
      exact ⟨_, rfl, valid, rfl, rfl, fun _ member => Or.inl member⟩
  · rw [if_neg address]
    exact ⟨_, rfl, valid, rfl, rfl, fun _ member => Or.inl member⟩

theorem loadLine_of_not_validline {s : LoadState} {record : Text}
    (invalid : validline (strlcpy s.buf record) recordLen s.prevaddr = false) :
    loadLine s record = .error ⟨s.memory, s.stored, erroneousLine s.lineno record⟩ := by
  unfold loadLine
  dsimp only
  rw [invalid]
  rfl

theorem lineLoaded_of_ok {s next : LoadState} {record : Text}
    (loaded : loadLine s record = .ok next) : LineLoaded s record next := by
  cases valid : validline (strlcpy s.buf record) recordLen s.prevaddr with
  | false =>
      rw [loadLine_of_not_validline valid] at loaded
      exact nomatch loaded
  | true =>
      obtain ⟨other, again, line⟩ := loadLine_of_validline valid
      obtain rfl := Except.ok.inj (again.symm.trans loaded)
      exact line

theorem loadLine_ok_iff (s : LoadState) (record : Text) :
    (∃ next, loadLine s record = .ok next) ↔
      validline (strlcpy s.buf record) recordLen s.prevaddr = true := by
  constructor
  · rintro ⟨next, loaded⟩
    exact (lineLoaded_of_ok loaded).valid
  · intro valid
    obtain ⟨next, loaded, -⟩ := loadLine_of_validline valid
    exact ⟨next, loaded⟩

/-- What a load keeps between two lines: the addresses written are small, and the
lines are counted. -/
structure Counted (s : LoadState) (lines : Nat) : Prop where
  stored : ∀ address ∈ s.stored, 0 ≤ address ∧ address ≤ 0x1004
  lineno : s.lineno = BitVec.ofNat 32 (lines + 1)

theorem counted_start (buf : Buffer) (memory : Memory) : Counted (LoadState.start buf memory) 0 :=
  ⟨nofun, rfl⟩

theorem LineLoaded.counted {s next : LoadState} {record : Text} {lines : Nat}
    (line : LineLoaded s record next) (counted : Counted s lines) :
    Counted next (lines + 1) := by
  have lineno : next.lineno = BitVec.ofNat 32 (lines + 1 + 1) := by
    rw [line.lineno, counted.lineno]
    exact (BitVec.ofNat_add (lines + 1) 1).symm
  refine ⟨fun address member => ?_, lineno⟩
  rcases line.stored address member with old | small
  · exact counted.stored address old
  · exact small

/-! ## Files -/

/-- The first line that fails: the lines before it load, and it is refused. -/
theorem loadLines_cases {s : LoadState} {records : List Text} {lines : Nat}
    (counted : Counted s lines) :
    (∃ final, loadLines s records = .ok final ∧ Counted final (lines + records.length)) ∨
      ∃ before record after middle, records = before ++ record :: after ∧
        loadLines s before = .ok middle ∧ Counted middle (lines + before.length) ∧
        validline (strlcpy middle.buf record) recordLen middle.prevaddr = false ∧
        loadLines s records =
          .error ⟨middle.memory, middle.stored, erroneousLine middle.lineno record⟩ := by
  induction records generalizing s lines with
  | nil => exact Or.inl ⟨s, rfl, counted⟩
  | cons record rest ih =>
      cases valid : validline (strlcpy s.buf record) recordLen s.prevaddr with
      | false =>
          refine Or.inr ⟨[], record, rest, s, rfl, rfl, counted, valid, ?_⟩
          unfold loadLines
          rw [List.foldlM_cons, loadLine_of_not_validline valid]
          rfl
      | true =>
          obtain ⟨next, line, loadedLine⟩ := loadLine_of_validline valid
          have nextCounted := loadedLine.counted counted
          rw [loadLines_of_ok line]
          have shift (count : Nat) : lines + 1 + count = lines + (count + 1) := by omega
          rcases ih nextCounted with ⟨final, loaded, finalCounted⟩ |
            ⟨before, failing, after, middle, split, loaded, middleCounted, invalid, failed⟩
          · rw [shift] at finalCounted
            exact Or.inl ⟨final, loaded, finalCounted⟩
          · rw [shift] at middleCounted
            refine Or.inr ⟨record :: before, failing, after, middle, by rw [split]; rfl, ?_,
              middleCounted, invalid, failed⟩
            rw [loadLines_of_ok line, loaded]

/-- A load has stopped at the line `record`: `validline` refused it, what is in memory is
what the lines before it leave, which load without a failure, and the number printed is
that of the line, as an `int`. -/
structure FailsAt (fileName file : Text) (buf : Buffer) (memory : Memory) (before : List Text)
    (record : Text) : Prop where
  lines : ∃ after, getlines file = before ++ record :: after
  refused : ∃ s, loadLines (LoadState.start buf memory) before = .ok s ∧
    validline (strlcpy s.buf record) recordLen s.prevaddr = false
  alone : (load fileName (some before.flatten) buf memory).result = true
  sameMemory : (load fileName (some file) buf memory).memory =
    (load fileName (some before.flatten) buf memory).memory
  sameStored : (load fileName (some file) buf memory).stored =
    (load fileName (some before.flatten) buf memory).stored
  printed : (load fileName (some file) buf memory).printed =
    erroneousLine (BitVec.ofNat 32 (before.length + 1)) record

/-- For every file, whatever the buffer and memory hold: an accepted data record is
stored without an error, every address written is at most `0x1004`, and a load
that fails stops at a line that `validline` refuses, with memory as the lines
before that one leave it. -/
theorem load_failure (fileName file : Text) (buf : Buffer) (memory : Memory) :
    (∀ (line : Buffer) (prev_addr : Int), validline line recordLen prev_addr = true →
        hasaddress line = true → Storable line) ∧
      (∀ address ∈ (load fileName (some file) buf memory).stored,
        0 ≤ address ∧ address ≤ 0x1004) ∧
      (validatefilename fileName = true →
        (load fileName (some file) buf memory).result = false →
          ∃ before record, FailsAt fileName file buf memory before record) := by
  have lines := @loadLines_cases _ (getlines file) _ (counted_start buf memory)
  refine ⟨fun line prev_addr valid address => storable_of_validline valid address, ?_, ?_⟩
  · cases validName : validatefilename fileName with
    | false =>
        unfold load
        rw [validName]
        exact nofun
    | true =>
        rcases lines with ⟨final, loaded, counted⟩ | ⟨_, _, _, middle, -, -, counted, -, failed⟩
        · rw [load_of_ok validName loaded]
          exact counted.stored
        · rw [load_of_error validName failed]
          exact counted.stored
  · intro validName failure
    rcases lines with ⟨final, loaded, -⟩ |
      ⟨before, record, after, middle, split, loaded, counted, invalid, failed⟩
    · rw [load_of_ok validName loaded] at failure
      exact absurd failure.symm Bool.false_ne_true
    · have whole := load_of_error validName failed
      have flat : getlines before.flatten = before := getlines_flatten split
      have alone : load fileName (some before.flatten) buf memory =
          ⟨true, middle.memory, middle.stored, []⟩ :=
        load_of_ok validName (flat.symm ▸ loaded)
      have lineno : middle.lineno = BitVec.ofNat 32 (before.length + 1) := by
        rw [counted.lineno, Nat.zero_add]
      refine ⟨before, record, ⟨after, split⟩, ⟨middle, loaded, invalid⟩, ?_, ?_, ?_, ?_⟩
      · rw [alone]
      · rw [whole, alone]
      · rw [whole, alone]
      · rw [whole, lineno]

def byteRecord : Text := ascii "  0x1f0: 2A           |" ++ [newline]

/-- The record, and a line that is no record. -/
def byteThenText : Text := byteRecord ++ ascii "no record" ++ [newline]

/-- The record can be stored, and loading this file stops at its second line. -/
theorem load_failure_byteThenText :
    Storable (strlcpy (fun _ => nul) byteRecord) ∧
      ∃ before record,
        FailsAt (ascii "a.yo") byteThenText (fun _ => nul) initMemory before record :=
  have failure := load_failure (ascii "a.yo") byteThenText (fun _ => nul) initMemory
  ⟨failure.1 _ (-1) (by decide +kernel) (by decide +kernel),
    failure.2.2 (by decide) (by decide +kernel)⟩

end Yess
