import Yess.Memory
import Yess.Strtonum

/-!
# Object file loader

`loader.c`: each line of the file is copied into a buffer of 25 characters,
checked column by column, and its data bytes are stored in memory.  A line that
is shorter than the buffer leaves the rest of the previous line in it.
-/

namespace Yess

open Lib.CString

/-- `RECORDLEN`: the size of the buffer for one line. -/
abbrev recordLen : Nat := 25

abbrev Buffer := Fin recordLen → Byte

namespace Buffer

def get (line : Buffer) (column : Nat) : Byte :=
  if inside : column < recordLen then line ⟨column, inside⟩ else nul

def text (line : Buffer) : Text := cstring (List.ofFn line)

end Buffer

/-- `strlcpy(buf, record, sizeof(buf))`: the string, cut off where the buffer ends,
and a NUL; what is behind the NUL stays as it was. -/
def strlcpy (buf : Buffer) (record : Text) : Buffer :=
  let copied := (cstring record).take (recordLen - 1)
  fun place =>
    if inside : place.val < copied.length then copied[place.val]
    else if place.val = copied.length then nul
    else buf place

def copied (record : Text) : Text := (cstring record).take (recordLen - 1)

theorem length_copied (record : Text) :
    (copied record).length = min (recordLen - 1) (cstring record).length :=
  List.length_take

/-- A column of the copy: the line up to its NUL, what was there before behind it. -/
theorem strlcpy_get (buf : Buffer) (record : Text) {n : Nat} (inside : n < recordLen) :
    (strlcpy buf record).get n =
      if n ≤ (copied record).length then ((copied record)[n]?).getD nul else buf.get n := by
  unfold Buffer.get strlcpy
  rw [dif_pos inside, dif_pos inside]
  change (if below : n < (copied record).length then (copied record)[n]
    else if n = (copied record).length then nul else buf ⟨n, inside⟩) = _
  rcases Nat.lt_trichotomy n (copied record).length with below | same | beyond
  · rw [dif_pos below, if_pos (Nat.le_of_lt below), List.getElem?_eq_getElem below]
    rfl
  · rw [dif_neg (Nat.not_lt.mpr (Nat.le_of_eq same.symm)), if_pos same,
      if_pos (Nat.le_of_eq same), List.getElem?_eq_none (Nat.le_of_eq same.symm)]
    rfl
  · rw [dif_neg (Nat.not_lt.mpr (Nat.le_of_lt beyond)), if_neg (Nat.ne_of_gt beyond),
      if_neg (Nat.not_le.mpr beyond)]

/-! ## Checks on one line -/

def hasspaces (line : Buffer) (len start last : Nat) : Bool :=
  if len ≤ last then false
  else (List.range' start (last + 1 - start)).all fun i => line.get i = space

def hashexdigits (line : Buffer) (len start last : Nat) : Bool :=
  if len ≤ last then false
  else (List.range' start (last + 1 - start)).all fun i => isxdigit (line.get i)

theorem hashexdigits_iff (line : Buffer) (len start last : Nat) :
    hashexdigits line len start last = true ↔
      last < len ∧ ∀ i, start ≤ i → i ≤ last → isxdigit (line.get i) = true := by
  unfold hashexdigits
  split
  · case isTrue outside =>
      exact iff_of_false Bool.false_ne_true fun digits => absurd digits.1 (Nat.not_lt.mpr outside)
  · case isFalse inside => rw [all_range'_iff, and_iff_right (Nat.lt_of_not_le inside)]

def iscommentrecord (line : Buffer) (len : Nat) : Bool := hasspaces line len 0 21

theorem iscommentrecord_iff (line : Buffer) :
    iscommentrecord line recordLen = true ↔ ∀ i, i < 22 → line.get i = space := by
  unfold iscommentrecord hasspaces
  rw [if_neg (by decide), all_range'_iff]
  constructor
  · intro spaces i small
    exact of_decide_eq_true (spaces i (Nat.zero_le i) (Nat.le_of_lt_succ small))
  · intro spaces i _ upper
    exact decide_eq_true (spaces i (Nat.lt_succ_of_le upper))

def isdatarecord (line : Buffer) : Bool :=
  if !(isblank (line.get 0) && isblank (line.get 1) && isblank (line.get 8) &&
    isblank (line.get 21)) then false
  else line.get 2 = ch '0' && line.get 3 = ch 'x' && line.get 7 = ch ':'

def hasaddress (line : Buffer) : Bool :=
  (line.get 2 = ch '0' && line.get 3 = ch 'x' && line.get 7 = ch ':') &&
    (isxdigit (line.get 4) && isxdigit (line.get 5) && isxdigit (line.get 6))

/-- The address in the record, and the error flag.  `hex_addr` has ten characters. -/
def grabAddress (record : Buffer) (len : Nat) : Int × Bool :=
  let span := strcspn record.text (ch ':')
  if span < 1 ∨ span = len - 1 ∨ span > 10 then (-1, true)
  else
    let addr := strtoint (record.text.take span) 16
    (addr, addr = -1)

def validateaddress (line : Buffer) (len : Nat) (prev_addr : Int) : Bool :=
  if !hashexdigits line len 4 6 then false
  else if prev_addr = -1 then true
  else
    let current := grabAddress line len
    if current.2 ∨ current.1 < prev_addr then false else true

/-- The loop of `hasdata`: the pairs of digits from column `start` on, at most `fuel`. -/
def countData (line : Buffer) (len : Nat) : Nat → Nat → Nat
  | 0, _ => 0
  | fuel + 1, start =>
      if hashexdigits line len start (start + 1) then countData line len fuel (start + 2) + 1
      else 0

/-- The number of data bytes in the line.  A column past the end of the line ends
the loop. -/
def hasdata (line : Buffer) (len : Nat) : Nat :=
  if !isxdigit (line.get 9) then 0 else countData line len len 9

def validatedata (record : Buffer) : Bool :=
  let len := record.text.length
  if len < 21 then false
  else if !hashexdigits record len 9 10 then false
  else [11, 13, 15, 17, 19].all fun i =>
    !isxdigit (record.get i) || isxdigit (record.get (i + 1))

def validline (line : Buffer) (len : Nat) (prev_addr : Int) : Bool :=
  if len < recordLen then false
  else if line.get 22 ≠ ch '|' then false
  else if !(isblank (line.get 0) && isblank (line.get 1) && isblank (line.get 8) &&
    isblank (line.get 21)) then false
  else if iscommentrecord line len then true
  else if !isdatarecord line then false
  else if validateaddress line len prev_addr then
    if hasdata line len ≠ 0 then validatedata line else true
  else false

def grabDataByte (record : Buffer) (byteNum : Nat) : Byte × Bool :=
  let index := byteNum * 2 + 7
  let result := strtoint (cstring [record.get index, record.get (index + 1)]) 16
  if result = -1 then (0, true) else (BitVec.ofInt 8 result, false)

/-! ## Loading -/

/-- The variables of the loop over the bytes of a record.  `stored` is no variable
of the source: it records the addresses written so far, in order. -/
structure ByteLoop where
  memory : Memory
  byteAddress : Int
  stored : List Int

/-- The bytes from number `byteNumber` on, `remaining` of them, and whether an error
ended the loop. -/
def storeData (buf : Buffer) : Nat → Nat → ByteLoop → ByteLoop × Bool
  | 0, _, loop => (loop, false)
  | remaining + 1, byteNumber, loop =>
      let data := grabDataByte buf byteNumber
      if data.2 then (loop, true)
      else
        let put := putByte loop.memory loop.byteAddress data.1
        if put.2 then ({ loop with memory := put.1 }, true)
        else
          storeData buf remaining (byteNumber + 1)
            { memory := put.1
              byteAddress := loop.byteAddress + 1
              stored := loop.stored ++ [loop.byteAddress] }

/-- The variables of `load` between two lines, and the addresses written so far. -/
structure LoadState where
  memory : Memory
  buf : Buffer
  prevaddr : Int
  lineno : Word
  stored : List Int

/-- What a load that fails leaves: memory, the addresses written, and the text printed. -/
structure LoadFailure where
  memory : Memory
  stored : List Int
  printed : Text

def erroneousLine (lineno : Word) (record : Text) : Text :=
  ascii "Error on line " ++ ascii (toString lineno.toInt) ++ [newline] ++ cstring record ++
    [newline]

def loadLine (s : LoadState) (record : Text) : Except LoadFailure LoadState :=
  let buf := strlcpy s.buf record
  if !validline buf recordLen s.prevaddr then
    .error ⟨s.memory, s.stored, erroneousLine s.lineno record⟩
  else if hasaddress buf then
    let address := grabAddress buf recordLen
    if address.2 then .error ⟨s.memory, s.stored, []⟩
    else
      let numBytes := hasdata buf recordLen
      if numBytes ≠ 0 then
        let result := storeData buf numBytes 1 ⟨s.memory, address.1, s.stored⟩
        if result.2 then .error ⟨result.1.memory, result.1.stored, []⟩
        else
          .ok
            { memory := result.1.memory
              buf := buf
              prevaddr := result.1.byteAddress - 1
              lineno := s.lineno + 1
              stored := result.1.stored }
      else .ok { s with buf := buf, lineno := s.lineno + 1 }
  else .ok { s with buf := buf, lineno := s.lineno + 1 }

def loadLines (s : LoadState) (records : List Text) : Except LoadFailure LoadState :=
  records.foldlM loadLine s

theorem loadLines_cons {s final : LoadState} {record : Text} {rest : List Text}
    (loaded : loadLines s (record :: rest) = .ok final) :
    ∃ next, loadLine s record = .ok next ∧ loadLines next rest = .ok final := by
  unfold loadLines at loaded
  rw [List.foldlM_cons] at loaded
  cases line : loadLine s record with
  | error failure =>
      rw [line] at loaded
      exact nomatch loaded
  | ok next =>
      rw [line] at loaded
      exact ⟨next, rfl, loaded⟩

theorem loadLines_of_ok {s next : LoadState} {record : Text} (line : loadLine s record = .ok next)
    (rest : List Text) : loadLines s (record :: rest) = loadLines next rest := by
  unfold loadLines
  rw [List.foldlM_cons, line]
  rfl

/-- The variables of `load` before the first line; `buf` is not initialised. -/
def LoadState.start (buf : Buffer) (memory : Memory) : LoadState := ⟨memory, buf, -1, 1, []⟩

/-- What a call of `load` leaves: the return value, memory, the addresses written
and the text printed. -/
structure Loaded where
  result : Bool
  memory : Memory
  stored : List Int
  printed : Text

/-- Load machine source code into memory.  `file` is the text of the file, if it
can be opened; reading it does not fail. -/
def load (fileName : Text) (file : Option Text) (buf : Buffer) (memory : Memory) : Loaded :=
  if !validatefilename fileName then ⟨false, memory, [], []⟩
  else
    match file with
    | none => ⟨false, memory, [], []⟩
    | some text =>
        match loadLines (LoadState.start buf memory) (getlines text) with
        | .ok s => ⟨true, s.memory, s.stored, []⟩
        | .error failure => ⟨false, failure.memory, failure.stored, failure.printed⟩

section

variable {fileName file : Text} {buf : Buffer} {memory : Memory}

theorem load_of_ok (validName : validatefilename fileName = true) {s : LoadState}
    (lines : loadLines (LoadState.start buf memory) (getlines file) = .ok s) :
    load fileName (some file) buf memory = ⟨true, s.memory, s.stored, []⟩ := by
  unfold load
  rw [validName, Bool.not_true, if_neg Bool.false_ne_true]
  dsimp only
  rw [lines]

theorem load_of_error (validName : validatefilename fileName = true) {failure : LoadFailure}
    (lines : loadLines (LoadState.start buf memory) (getlines file) = .error failure) :
    load fileName (some file) buf memory =
      ⟨false, failure.memory, failure.stored, failure.printed⟩ := by
  unfold load
  rw [validName, Bool.not_true, if_neg Bool.false_ne_true]
  dsimp only
  rw [lines]

theorem exists_of_load (accepted : (load fileName (some file) buf memory).result = true) :
    validatefilename fileName = true ∧
      ∃ s, loadLines (LoadState.start buf memory) (getlines file) = .ok s := by
  cases validName : validatefilename fileName with
  | false =>
      unfold load at accepted
      rw [validName] at accepted
      exact absurd accepted Bool.false_ne_true
  | true =>
      cases lines : loadLines (LoadState.start buf memory) (getlines file) with
      | error failure =>
          rw [load_of_error validName lines] at accepted
          exact absurd accepted Bool.false_ne_true
      | ok s => exact ⟨rfl, s, rfl⟩

end

end Yess
