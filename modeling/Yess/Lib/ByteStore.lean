import Yess.Lib.BitField

/-!
# Byte arrays with checked byte and word accesses

The abstract store: `size` bytes, each with an address.  An access names the
bytes it reads or writes; one outside the array, or a word access off a
four-byte boundary, is refused with an error flag and changes nothing.
-/

namespace Yess.Lib.ByteStore

open BitField

abbrev Bytes (size : Nat) := Fin size → BitVec 8

variable {size : Nat}

def InRange (size : Nat) (address : Int) : Prop := 0 ≤ address ∧ address < size

instance (address : Int) : Decidable (InRange size address) :=
  inferInstanceAs (Decidable (_ ∧ _))

/-- A word address inside the array: in range and on a four-byte boundary. -/
def WordInRange (size : Nat) (address : Int) : Prop := InRange size address ∧ address % 4 = 0

instance (address : Int) : Decidable (WordInRange size address) :=
  inferInstanceAs (Decidable (_ ∧ _))

def load (bytes : Bytes size) (index : Nat) : BitVec 8 :=
  if inside : index < size then bytes ⟨index, inside⟩ else 0

def store (bytes : Bytes size) (index : Nat) (byte : BitVec 8) : Bytes size :=
  fun place => if place.val = index then byte else bytes place

/-- A byte read: the byte and a clear error flag, or zero and a set one. -/
def readByte (bytes : Bytes size) (address : Int) : BitVec 8 × Bool :=
  if InRange size address then (load bytes address.toNat, false) else (0, true)

def writeByte (bytes : Bytes size) (address : Int) (byte : BitVec 8) : Bytes size × Bool :=
  if InRange size address then (store bytes address.toNat byte, false) else (bytes, true)

/-- A word read: four bytes from the address on, least significant first. -/
def readWord (bytes : Bytes size) (address : Int) : BitVec 32 × Bool :=
  if WordInRange size address then
    let index := address.toNat
    (joinBytes (load bytes index) (load bytes (index + 1)) (load bytes (index + 2))
      (load bytes (index + 3)), false)
  else (0, true)

def writeWord (bytes : Bytes size) (address : Int) (word : BitVec 32) : Bytes size × Bool :=
  if WordInRange size address then
    let index := address.toNat
    (store (store (store (store bytes index (byteAt word 0)) (index + 1) (byteAt word 1))
      (index + 2) (byteAt word 2)) (index + 3) (byteAt word 3), false)
  else (bytes, true)

@[simp] theorem load_store_same (bytes : Bytes size) {index : Nat} (inside : index < size)
    (byte : BitVec 8) : load (store bytes index byte) index = byte := by
  simp [load, store, inside]

@[simp] theorem load_store_other (bytes : Bytes size) {index other : Nat} (byte : BitVec 8)
    (different : other ≠ index) : load (store bytes index byte) other = load bytes other := by
  simp [load, store, different]

end Yess.Lib.ByteStore
