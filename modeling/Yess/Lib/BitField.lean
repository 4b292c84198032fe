import Mathlib.Data.BitVec

/-!
# Byte fields of a machine word

A word of `8 * n` bits is read as `n` bytes, byte `0` the least significant
one.  The lemmas say what shifting, masking and concatenating do to the bytes,
so that a development about a byte-addressed store never looks at single bits
again.
-/

namespace Yess.Lib.BitField

/-- Byte number `index` of a word; bytes past the end of the word read as zero. -/
def byteAt {width : Nat} (word : BitVec width) (index : Nat) : BitVec 8 :=
  word.extractLsb' (8 * index) 8

def withByte {width : Nat} (word : BitVec width) (index : Nat) (byte : BitVec 8) : BitVec width :=
  (word &&& ~~~((BitVec.allOnes 8).setWidth width <<< (8 * index))) |||
    (byte.setWidth width <<< (8 * index))

def joinBytes (byte0 byte1 byte2 byte3 : BitVec 8) : BitVec 32 :=
  BitVec.ofNat 32
    (byte0.toNat + 256 * byte1.toNat + 65536 * byte2.toNat + 16777216 * byte3.toNat)

@[simp] theorem getElem_byteAt {width : Nat} (word : BitVec width) (index bit : Nat)
    (lt : bit < 8) : (byteAt word index)[bit] = word.getLsbD (8 * index + bit) := by
  simp [byteAt, BitVec.getElem_extractLsb']

theorem getElem_ones (bit : Nat) (lt : bit < 8) : (255#8)[bit] = true := by
  rw [show (255#8) = BitVec.allOnes 8 by rfl, BitVec.getElem_allOnes]

theorem byteAt_withByte_same {width : Nat} (word : BitVec width) (index : Nat) (byte : BitVec 8)
    (inside : 8 * index + 8 ≤ width) : byteAt (withByte word index byte) index = byte := by
  apply BitVec.eq_of_getElem_eq
  intro bit lt
  have inWidth : 8 * index + bit < width := by omega
  have fromZero : 8 * index + bit - 8 * index = bit := by omega
  have notBelow : ¬ 8 * index + bit < 8 * index := by omega
  simp [withByte, lt, inWidth, fromZero, notBelow, getElem_ones]

theorem byteAt_withByte_other {width : Nat} (word : BitVec width) {index other : Nat}
    (byte : BitVec 8) (different : other ≠ index) :
    byteAt (withByte word index byte) other = byteAt word other := by
  apply BitVec.eq_of_getElem_eq
  intro bit lt
  rcases Nat.lt_or_gt_of_ne different with below | above
  · have under : 8 * other + bit < 8 * index := by omega
    simp [withByte, under]
    exact BitVec.lt_of_getLsbD
  · have past : 8 ≤ 8 * other + bit - 8 * index := by omega
    have zero : byte.getLsbD (8 * other + bit - 8 * index) = false :=
      BitVec.getLsbD_of_ge _ _ past
    have notOnes : (255#8).getLsbD (8 * other + bit - 8 * index) = false :=
      BitVec.getLsbD_of_ge _ _ past
    simp [withByte, zero, notOnes]
    exact BitVec.lt_of_getLsbD

/-- A word is the concatenation of its bytes. -/
theorem joinBytes_byteAt (word : BitVec 32) :
    joinBytes (byteAt word 0) (byteAt word 1) (byteAt word 2) (byteAt word 3) = word := by
  apply BitVec.eq_of_toNat_eq
  have bound := word.isLt
  simp only [joinBytes, byteAt, BitVec.toNat_ofNat, BitVec.extractLsb'_toNat,
    Nat.shiftRight_eq_div_pow]
  omega

end Yess.Lib.BitField
