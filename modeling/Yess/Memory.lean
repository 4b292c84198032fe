import Yess.Tools
import Yess.Lib.ByteStore
import Yess.Lib.Mealy

/-!
# System memory

`memory.c`: an array of 32-bit words behind four checked accessors.  Bytes are
read and written by fetching the containing word, so the file ends with the
view of the word array as a byte array, and with the theorem that no sequence
of accesses can tell the two apart.
-/

namespace Yess

open Lib Lib.BitField Lib.ByteStore

/-- `MEMSIZE`: total number of words of memory. -/
abbrev memSize : Nat := 16384

/-- `WORDSIZE`: size of one word in bytes. -/
abbrev wordSize : Int := 4

/-- `HIGHBYTE`: highest byte address in memory. -/
abbrev highByte : Int := 65535

/-- `NOADDRESS`: value for "not a memory address". -/
abbrev noAddress : Word := 0

abbrev Memory := Fin memSize → Word

/-- `initMemory`: every word zero, as `calloc` leaves it. -/
def initMemory : Memory := fun _ => 0

def clearMemory (_memory : Memory) : Memory := fun _ => 0

/-- The word at a word address and `*memError`. -/
def fetch (memory : Memory) (address : Int) : Word × Bool :=
  if outside : address < 0 ∨ address ≥ memSize then (0, true)
  else (memory ⟨address.toNat, by omega⟩, false)

/-- Write one word at a word address; memory is not modified on an error. -/
def store (memory : Memory) (address : Int) (data : Word) : Memory × Bool :=
  if address < 0 ∨ address ≥ memSize then (memory, true)
  else (fun place => if (place.val : Int) = address then data else memory place, false)

/-- Read a byte by its byte address.  The address is non-negative where it is
divided, so C's `/` and `%` are the ones of `Int`. -/
def getByte (memory : Memory) (byteAddress : Int) : Byte × Bool :=
  if byteAddress < 0 ∨ byteAddress > highByte then (0, true)
  else
    let word := fetch memory (byteAddress / wordSize)
    if word.2 then (0, true)
    else (getByteNumber (byteAddress % wordSize) word.1, false)

def putByte (memory : Memory) (byteAddress : Int) (data : Byte) : Memory × Bool :=
  if byteAddress < 0 ∨ byteAddress > highByte then (memory, true)
  else
    let word := fetch memory (byteAddress / wordSize)
    if word.2 then (memory, true)
    else
      let newWord := putByteNumber (byteAddress % wordSize) data word.1
      store memory (byteAddress / wordSize) newWord

def getWord (memory : Memory) (byteAddress : Int) : Word × Bool :=
  if byteAddress < 0 ∨ byteAddress > highByte then (0, true)
  else if byteAddress = 0 then fetch memory 0
  else if byteAddress % wordSize ≠ 0 then (0, true)
  else fetch memory (byteAddress / wordSize)

def putWord (memory : Memory) (byteAddress : Int) (data : Word) : Memory × Bool :=
  if byteAddress < 0 ∨ byteAddress > highByte then (memory, true)
  else if byteAddress % wordSize ≠ 0 then (memory, true)
  else store memory (byteAddress / wordSize) data

/-! ## The byte view -/

theorem wordIndex_lt {index : Nat} (inside : index < 65536) : index / 4 < memSize := by
  simp only [memSize]
  omega

/-- The 65536 bytes of the word array, each word least significant byte first. -/
def bytesOf (memory : Memory) : Bytes 65536 :=
  fun place => byteAt (memory ⟨place.val / 4, wordIndex_lt place.isLt⟩) (place.val % 4)

theorem load_bytesOf (memory : Memory) {index : Nat} (inside : index < 65536) :
    load (bytesOf memory) index = byteAt (memory ⟨index / 4, wordIndex_lt inside⟩) (index % 4) := by
  simp [load, bytesOf, inside]

theorem fetch_eq (memory : Memory) {index : Nat} (inside : index < memSize) :
    fetch memory index = (memory ⟨index, inside⟩, false) := by
  unfold fetch
  rw [dif_neg (by omega)]
  simp only [Int.toNat_natCast]

theorem store_eq (memory : Memory) {index : Nat} (inside : index < memSize) (data : Word) :
    Yess.store memory index data = (Function.update memory ⟨index, inside⟩ data, false) := by
  unfold Yess.store
  rw [if_neg (by omega)]
  congr 1
  funext place
  by_cases same : place = ⟨index, inside⟩
  · subst same
    simp
  · have different : (place.val : Int) ≠ index := by
      intro equal
      exact same (Fin.ext (Int.ofNat.inj equal))
    simp [different, same]

theorem exists_index {address : Int} (inside : InRange 65536 address) :
    ∃ index : Nat, index < 65536 ∧ address = index := by
  obtain ⟨lower, upper⟩ := inside
  exact ⟨address.toNat, by omega, by omega⟩

theorem natCast_div_mod_wordSize (index : Nat) :
    (index : Int) / wordSize = (index / 4 : Nat) ∧
      (index : Int) % wordSize = (index % 4 : Nat) := by
  simp

theorem outside_iff (address : Int) :
    (address < 0 ∨ address > highByte) ↔ ¬ InRange 65536 address := by
  simp only [InRange, highByte]
  omega

theorem getByte_eq (memory : Memory) (address : Int) :
    getByte memory address = readByte (bytesOf memory) address := by
  unfold getByte readByte
  by_cases inside : InRange 65536 address
  · rw [if_neg (fun outside => (outside_iff address).mp outside inside), if_pos inside]
    obtain ⟨index, small, rfl⟩ := exists_index inside
    obtain ⟨quotient, remainder⟩ := natCast_div_mod_wordSize index
    rw [quotient, remainder, fetch_eq memory (wordIndex_lt small), Int.toNat_natCast,
      load_bytesOf memory small]
    dsimp only
    rw [getByteNumber_eq (Nat.mod_lt index (by decide))]
    rfl
  · rw [if_pos ((outside_iff address).mpr inside), if_neg inside]

theorem bytesOf_update (memory : Memory) {index : Nat} (inside : index < 65536) (data : Byte) :
    bytesOf (Function.update memory ⟨index / 4, wordIndex_lt inside⟩
      (withByte (memory ⟨index / 4, wordIndex_lt inside⟩) (index % 4) data)) =
      ByteStore.store (bytesOf memory) index data := by
  funext place
  simp only [bytesOf, ByteStore.store]
  by_cases sameWord : place.val / 4 = index / 4
  · have slot : (⟨place.val / 4, wordIndex_lt place.isLt⟩ : Fin memSize) =
        ⟨index / 4, wordIndex_lt inside⟩ := Fin.ext sameWord
    rw [slot, Function.update_self]
    by_cases sameByte : place.val = index
    · rw [if_pos sameByte, sameByte]
      exact byteAt_withByte_same _ _ _ (by omega)
    · rw [if_neg sameByte]
      exact byteAt_withByte_other _ _ (by omega)
  · have slot : (⟨place.val / 4, wordIndex_lt place.isLt⟩ : Fin memSize) ≠
        ⟨index / 4, wordIndex_lt inside⟩ := fun equal => sameWord (Fin.ext_iff.mp equal)
    rw [Function.update_of_ne slot, if_neg (fun equal => sameWord (by rw [equal]))]

theorem putByte_eq (memory : Memory) (address : Int) (data : Byte) :
    (bytesOf (putByte memory address data).1, (putByte memory address data).2) =
      writeByte (bytesOf memory) address data := by
  unfold putByte writeByte
  by_cases inside : InRange 65536 address
  · rw [if_neg (fun outside => (outside_iff address).mp outside inside), if_pos inside]
    obtain ⟨index, small, rfl⟩ := exists_index inside
    obtain ⟨quotient, remainder⟩ := natCast_div_mod_wordSize index
    rw [quotient, remainder, fetch_eq memory (wordIndex_lt small), Int.toNat_natCast]
    dsimp only
    rw [putByteNumber_eq (Nat.mod_lt index (by decide)), store_eq memory (wordIndex_lt small)]
    simp [bytesOf_update memory small]
  · rw [if_pos ((outside_iff address).mpr inside), if_neg inside]

theorem exists_wordIndex {address : Int} (inside : WordInRange 65536 address) :
    ∃ index : Nat, index < memSize ∧ address = (4 * index : Nat) := by
  obtain ⟨⟨lower, upper⟩, aligned⟩ := inside
  exact ⟨(address / 4).toNat, by simp only [memSize]; omega, by omega⟩

theorem joinBytes_load (memory : Memory) {index : Nat} (inside : index < memSize) :
    joinBytes (load (bytesOf memory) (4 * index)) (load (bytesOf memory) (4 * index + 1))
      (load (bytesOf memory) (4 * index + 2)) (load (bytesOf memory) (4 * index + 3)) =
      memory ⟨index, inside⟩ := by
  have byte (offset : Nat) (small : offset < 4) :
      load (bytesOf memory) (4 * index + offset) = byteAt (memory ⟨index, inside⟩) offset := by
    have bound : 4 * index + offset < 65536 := by
      simp only [memSize] at inside
      omega
    rw [load_bytesOf memory bound]
    congr 2
    · exact Fin.ext (by simp only; omega)
    · omega
  rw [byte 1 (by decide), byte 2 (by decide), byte 3 (by decide),
    show 4 * index = 4 * index + 0 by rfl, byte 0 (by decide)]
  exact joinBytes_byteAt _

/-- The two ways a word access is refused: out of range, or off a word boundary. -/
theorem refused_cases {address : Int} (refused : ¬ WordInRange 65536 address) :
    (address < 0 ∨ address > highByte) ∨
      (¬ (address < 0 ∨ address > highByte) ∧ address % wordSize ≠ 0) := by
  by_cases outside : address < 0 ∨ address > highByte
  · exact Or.inl outside
  · refine Or.inr ⟨outside, fun aligned => refused ⟨?_, aligned⟩⟩
    exact by_contra fun notInside => outside ((outside_iff address).mpr notInside)

theorem wordIndex_passes {index : Nat} (inside : index < memSize) :
    ¬ (((4 * index : Nat) : Int) < 0 ∨ ((4 * index : Nat) : Int) > highByte) ∧
      ((4 * index : Nat) : Int) % wordSize = 0 ∧ ((4 * index : Nat) : Int) / wordSize = index := by
  simp only [memSize, highByte, wordSize] at *
  omega

/-- The word of address zero needs no alignment test: both branches of `getWord` fetch it. -/
theorem getWord_inRange (memory : Memory) {index : Nat} (inside : index < memSize) :
    getWord memory (4 * index : Nat) = (memory ⟨index, inside⟩, false) := by
  obtain ⟨passes, aligned, quotient⟩ := wordIndex_passes inside
  unfold getWord
  rw [if_neg passes]
  split
  · have zero : index = 0 := by omega
    subst zero
    exact fetch_eq memory inside
  · rw [if_neg (not_not.mpr aligned), quotient]
    exact fetch_eq memory inside

theorem getWord_refused (memory : Memory) {address : Int} (refused : ¬ WordInRange 65536 address) :
    getWord memory address = (0, true) := by
  unfold getWord
  rcases refused_cases refused with outside | ⟨inside, misaligned⟩
  · rw [if_pos outside]
  · have nonzero : address ≠ 0 := by
      rintro rfl
      exact misaligned rfl
    rw [if_neg inside, if_neg nonzero, if_pos misaligned]

theorem putWord_inRange (memory : Memory) {index : Nat} (inside : index < memSize) (data : Word) :
    putWord memory (4 * index : Nat) data =
      (Function.update memory ⟨index, inside⟩ data, false) := by
  obtain ⟨passes, aligned, quotient⟩ := wordIndex_passes inside
  unfold putWord
  rw [if_neg passes, if_neg (not_not.mpr aligned), quotient]
  exact store_eq memory inside data

theorem putWord_refused (memory : Memory) {address : Int} (refused : ¬ WordInRange 65536 address)
    (data : Word) : putWord memory address data = (memory, true) := by
  unfold putWord
  rcases refused_cases refused with outside | ⟨inside, misaligned⟩
  · rw [if_pos outside]
  · rw [if_neg inside, if_pos misaligned]

theorem getWord_eq (memory : Memory) (address : Int) :
    getWord memory address = readWord (bytesOf memory) address := by
  unfold readWord
  by_cases inside : WordInRange 65536 address
  · rw [if_pos inside]
    obtain ⟨index, small, rfl⟩ := exists_wordIndex inside
    rw [Int.toNat_natCast, getWord_inRange memory small]
    dsimp only
    rw [joinBytes_load memory small]
  · rw [if_neg inside, getWord_refused memory inside]

theorem bytesOf_update_word (memory : Memory) {index : Nat} (inside : index < memSize)
    (data : Word) :
    bytesOf (Function.update memory ⟨index, inside⟩ data) =
      ByteStore.store (ByteStore.store (ByteStore.store (ByteStore.store (bytesOf memory)
        (4 * index) (byteAt data 0)) (4 * index + 1) (byteAt data 1)) (4 * index + 2)
        (byteAt data 2)) (4 * index + 3) (byteAt data 3) := by
  funext place
  simp only [bytesOf, ByteStore.store]
  by_cases sameWord : place.val / 4 = index
  · have slot : (⟨place.val / 4, wordIndex_lt place.isLt⟩ : Fin memSize) = ⟨index, inside⟩ :=
      Fin.ext sameWord
    rw [slot, Function.update_self]
    obtain zero | one | two | three : place.val = 4 * index ∨ place.val = 4 * index + 1 ∨
      place.val = 4 * index + 2 ∨ place.val = 4 * index + 3 := by omega
    · simp [zero]
    · simp [one, Nat.add_mod]
    · simp [two, Nat.add_mod]
    · simp [three, Nat.add_mod]
  · have slot : (⟨place.val / 4, wordIndex_lt place.isLt⟩ : Fin memSize) ≠ ⟨index, inside⟩ :=
      fun equal => sameWord (Fin.ext_iff.mp equal)
    rw [Function.update_of_ne slot, if_neg (by omega), if_neg (by omega), if_neg (by omega),
      if_neg (by omega)]

theorem putWord_eq (memory : Memory) (address : Int) (data : Word) :
    (bytesOf (putWord memory address data).1, (putWord memory address data).2) =
      writeWord (bytesOf memory) address data := by
  unfold writeWord
  by_cases inside : WordInRange 65536 address
  · rw [if_pos inside]
    obtain ⟨index, small, rfl⟩ := exists_wordIndex inside
    rw [putWord_inRange memory small, Int.toNat_natCast]
    simp only [bytesOf_update_word memory small]
  · rw [if_neg inside, putWord_refused memory inside]

theorem putWord_error {memory : Memory} {address : Int} {data : Word}
    (error : (putWord memory address data).2 = true) :
    (putWord memory address data).1 = memory := by
  by_cases inside : WordInRange 65536 address
  · obtain ⟨index, small, rfl⟩ := exists_wordIndex inside
    rw [putWord_inRange memory small] at error
    exact absurd error Bool.false_ne_true
  · rw [putWord_refused memory inside]

theorem getByte_putWord {memory : Memory} {address : Int} {data : Word} {other : Int}
    (elsewhere : ¬ (address ≤ other ∧ other < address + 4)) :
    getByte (putWord memory address data).1 other = getByte memory other := by
  by_cases inside : WordInRange 65536 address
  · have written := congrArg Prod.fst (putWord_eq memory address data)
    unfold writeWord at written
    rw [if_pos inside] at written
    dsimp only at written
    rw [getByte_eq, getByte_eq, written]
    unfold readByte
    split
    · have range := inside.1
      simp only [InRange] at *
      congr 1
      rw [load_store_other _ _ (by omega), load_store_other _ _ (by omega),
        load_store_other _ _ (by omega), load_store_other _ _ (by omega)]
    · rfl
  · rw [putWord_refused memory inside]

theorem bytesOf_putByte (memory : Memory) (address : Int) (data : Byte) :
    bytesOf (putByte memory address data).1 =
      if InRange 65536 address then ByteStore.store (bytesOf memory) address.toNat data
      else bytesOf memory := by
  refine (congrArg Prod.fst (putByte_eq memory address data)).trans ?_
  unfold writeByte
  split <;> rfl

theorem getByte_putByte_same (memory : Memory) {address : Int} (inside : InRange 65536 address)
    (data : Byte) : getByte (putByte memory address data).1 address = (data, false) := by
  have small : address.toNat < 65536 := by
    have upper := inside.2
    omega
  rw [getByte_eq, readByte, if_pos inside, bytesOf_putByte, if_pos inside,
    load_store_same _ small]

theorem getByte_putByte_other (memory : Memory) {address other : Int} (data : Byte)
    (different : other ≠ address) :
    getByte (putByte memory address data).1 other = getByte memory other := by
  rw [getByte_eq, getByte_eq, bytesOf_putByte]
  by_cases inside : InRange 65536 address
  · rw [if_pos inside]
    unfold readByte
    split
    · case isTrue range =>
        rw [load_store_other]
        have lower := inside.1
        have otherLower := range.1
        omega
    · rfl
  · rw [if_neg inside]

theorem putByte_noError (memory : Memory) {address : Int} (inside : InRange 65536 address)
    (data : Byte) : (putByte memory address data).2 = false := by
  have written := congrArg Prod.snd (putByte_eq memory address data)
  unfold writeByte at written
  rwa [if_pos inside] at written

def putBytes (memory : Memory) : Int → List Byte → Memory
  | _, [] => memory
  | address, data :: rest => putBytes (putByte memory address data).1 (address + 1) rest

theorem getByte_putBytes_other {memory : Memory} {address other : Int} {bytes : List Byte}
    (outside : ¬ (address ≤ other ∧ other < address + bytes.length)) :
    getByte (putBytes memory address bytes) other = getByte memory other := by
  induction bytes generalizing memory address with
  | nil => rfl
  | cons data rest ih =>
      rw [List.length_cons] at outside
      rw [putBytes, ih (by omega), getByte_putByte_other _ _ (by omega)]

theorem getByte_putBytes {memory : Memory} {address : Int} {bytes : List Byte}
    (inside : 0 ≤ address ∧ address + bytes.length ≤ 65536) {offset : Nat}
    (small : offset < bytes.length) :
    getByte (putBytes memory address bytes) (address + offset) = (bytes[offset], false) := by
  induction bytes generalizing memory address offset with
  | nil => exact absurd small (Nat.not_lt_zero _)
  | cons data rest ih =>
      rw [List.length_cons] at inside small
      rw [putBytes]
      cases offset with
      | zero =>
          rw [getByte_putBytes_other (by omega), Int.natCast_zero, Int.add_zero]
          refine getByte_putByte_same memory ?_ data
          unfold InRange
          omega
      | succ offset =>
          have next : getByte (putBytes (putByte memory address data).1 (address + 1) rest)
              (address + 1 + offset) = (rest[offset], false) :=
            ih (by omega) (Nat.lt_of_succ_lt_succ small)
          rwa [show address + 1 + (offset : Int) = address + ((offset + 1 : Nat) : Int) by omega]
            at next

theorem getByte_initMemory {address : Int} (inside : InRange 65536 address) :
    getByte initMemory address = (0, false) := by
  obtain ⟨index, small, rfl⟩ := exists_index inside
  rw [getByte_eq, readByte, if_pos inside, Int.toNat_natCast, load_bytesOf initMemory small]
  simp [initMemory, byteAt]

/-! ## Access sequences -/

/-- One call of a memory function, with its arguments. -/
inductive Access where
  | putByte (byteAddress : Int) (data : Byte)
  | putWord (byteAddress : Int) (data : Word)
  | getByte (byteAddress : Int)
  | getWord (byteAddress : Int)
  | clearMemory
  deriving DecidableEq, Repr

/-- What a call gives back: the value it returns and the `memError` flag it sets. -/
inductive Reply where
  | stored (memError : Bool)
  | byte (value : Byte) (memError : Bool)
  | word (value : Word) (memError : Bool)
  | cleared
  deriving DecidableEq, Repr

def access (memory : Memory) : Access → Reply × Memory
  | .putByte byteAddress data =>
      let result := putByte memory byteAddress data
      (.stored result.2, result.1)
  | .putWord byteAddress data =>
      let result := putWord memory byteAddress data
      (.stored result.2, result.1)
  | .getByte byteAddress =>
      let result := getByte memory byteAddress
      (.byte result.1 result.2, memory)
  | .getWord byteAddress =>
      let result := getWord memory byteAddress
      (.word result.1 result.2, memory)
  | .clearMemory => (.cleared, clearMemory memory)

/-- The same call on an array of 65536 bytes. -/
def byteAccess (bytes : Bytes 65536) : Access → Reply × Bytes 65536
  | .putByte byteAddress data =>
      let result := writeByte bytes byteAddress data
      (.stored result.2, result.1)
  | .putWord byteAddress data =>
      let result := writeWord bytes byteAddress data
      (.stored result.2, result.1)
  | .getByte byteAddress =>
      let result := readByte bytes byteAddress
      (.byte result.1 result.2, bytes)
  | .getWord byteAddress =>
      let result := readWord bytes byteAddress
      (.word result.1 result.2, bytes)
  | .clearMemory => (.cleared, fun _ => 0)

theorem bytesOf_initMemory : bytesOf initMemory = fun _ => 0 := by
  funext place
  simp [bytesOf, initMemory, byteAt]

/-- Every call on the word array is the call on its bytes. -/
theorem access_refines : Mealy.Refines access byteAccess bytesOf := by
  intro memory call
  cases call with
  | putByte byteAddress data =>
      simp only [access, byteAccess, ← putByte_eq]
  | putWord byteAddress data =>
      simp only [access, byteAccess, ← putWord_eq]
  | getByte byteAddress =>
      simp only [access, byteAccess, getByte_eq]
  | getWord byteAddress =>
      simp only [access, byteAccess, getWord_eq]
  | clearMemory =>
      exact congrArg (Prod.mk Reply.cleared) bytesOf_initMemory.symm

/-- No sequence of calls tells the word array from a little-endian byte array,
and the two agree on every byte at the end. -/
theorem memory_refines_bytes (calls : List Access) :
    (Mealy.run access initMemory calls).1 = (Mealy.run byteAccess (fun _ => 0) calls).1 ∧
      bytesOf (Mealy.run access initMemory calls).2 =
        (Mealy.run byteAccess (fun _ => 0) calls).2 := by
  have runs := access_refines.run_eq initMemory calls
  rw [bytesOf_initMemory] at runs
  exact ⟨(congrArg Prod.fst runs).symm, (congrArg Prod.snd runs).symm⟩

end Yess
