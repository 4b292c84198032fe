import Yess.Lib.BitField

/-!
# Bit and byte tools

The helpers of `tools.c` over 32-bit words.  Bit numbers and byte numbers are C
`int`s, so every helper carries its own range check; the callers of the
simulator stay inside the ranges, and the lemmas at the end say what the
helpers compute there.
-/

namespace Yess

open Lib.BitField

abbrev Byte := BitVec 8
abbrev Word := BitVec 32

/-- `BYTESIZE`: bits in a byte. -/
abbrev byteSize : Int := 8

/-- `INTHIGHBIT`: the highest bit of an `int`. -/
abbrev intHighBit : Int := 31

/-- The bits `low` to `high` of `source`, or `0` for a bad range. -/
def getBits (low high : Int) (source : Word) : Word :=
  if low < 0 ∨ high > 31 ∨ low > high then 0
  else
    let leftAmount := 31 - high
    let rightAmount := low + leftAmount
    (source <<< leftAmount.toNat) >>> rightAmount.toNat

/-- `source` with the bits `low` to `high` set to zero; unchanged for a bad range. -/
def clearBits (low high : Int) (source : Word) : Word :=
  if low < 0 ∨ high > intHighBit ∨ low > high then source
  else
    let leftAmount := intHighBit - high
    let rightAmount := low + leftAmount
    let clear : Word := 0xffffffff
    let clear := clear <<< leftAmount.toNat
    let clear := clear >>> rightAmount.toNat
    let clear := clear <<< low.toNat
    source &&& ~~~clear

/-- `source` with one bit set to `0` or `1`; unchanged for a bad bit or value. -/
def assignOneBit (bitNumber bitValue : Int) (source : Word) : Word :=
  if bitNumber < 0 ∨ bitNumber > intHighBit ∨ bitValue < 0 ∨ bitValue > 1 then source
  else
    let setter : Word := 1
    let setter := setter <<< bitNumber.toNat
    if bitValue ≠ 0 then source ||| setter else source &&& ~~~setter

def getByteNumber (byteNo : Int) (source : Word) : Byte :=
  if byteNo < 0 ∨ byteNo > 3 then 0
  else
    let low := byteSize * byteNo
    let high := low + (byteSize - 1)
    (getBits low high source).setWidth 8

def putByteNumber (byteNo : Int) (byteValue : Byte) (source : Word) : Word :=
  if byteNo < 0 ∨ byteNo > 3 then source
  else
    let low := byteSize * byteNo
    let high := low + (byteSize - 1)
    let source := clearBits low high source
    let newByteValue := byteValue.setWidth 32 <<< low.toNat
    source ||| newByteValue

def buildWord (byte0 byte1 byte2 byte3 : Byte) : Word :=
  let num : Word := byte3.setWidth 32
  let num := num <<< byteSize.toNat
  let num := num + byte2.setWidth 32
  let num := num <<< byteSize.toNat
  let num := num + byte1.setWidth 32
  let num := num <<< byteSize.toNat
  num + byte0.setWidth 32

theorem getBits_eq {low high : Nat} (ordered : low ≤ high) (inside : high ≤ 31) (source : Word) :
    getBits low high source = (source <<< (31 - high)) >>> (low + (31 - high)) := by
  have left : (31 - (high : Int)).toNat = 31 - high := by omega
  have right : ((low : Int) + (31 - (high : Int))).toNat = low + (31 - high) := by omega
  unfold getBits
  rw [if_neg (by omega)]
  dsimp only
  rw [left, right]

theorem clearBits_eq {low high : Nat} (ordered : low ≤ high) (inside : high ≤ 31) (source : Word) :
    clearBits low high source =
      source &&& ~~~(((0xffffffff#32 <<< (31 - high)) >>> (low + (31 - high))) <<< low) := by
  have left : (31 - (high : Int)).toNat = 31 - high := by omega
  have right : ((low : Int) + (31 - (high : Int))).toNat = low + (31 - high) := by omega
  unfold clearBits
  simp only [intHighBit]
  rw [if_neg (by omega), left, right, Int.toNat_natCast]
  rfl

theorem byteField_bounds (index : Nat) :
    byteSize * (index : Int) = ((8 * index : Nat) : Int) ∧
      byteSize * (index : Int) + (byteSize - 1) = ((8 * index + 7 : Nat) : Int) := by
  simp only [byteSize]
  omega

theorem getByteNumber_eq {index : Nat} (inside : index < 4) (source : Word) :
    getByteNumber index source = byteAt source index := by
  obtain ⟨low, high⟩ := byteField_bounds index
  unfold getByteNumber
  rw [if_neg (by omega)]
  dsimp only
  rw [high, low, getBits_eq (by omega) (by omega),
    show 8 * index + (31 - (8 * index + 7)) = 24 by omega,
    show 31 - (8 * index + 7) = 24 - 8 * index by omega]
  apply BitVec.eq_of_getElem_eq
  intro bit lt
  have inWord : 8 * index + bit < 32 := by omega
  have below : 24 + bit < 32 := by omega
  have above : ¬ 24 + bit < 24 - 8 * index := by omega
  have shift : 24 + bit - (24 - 8 * index) = 8 * index + bit := by omega
  simp [below, above, shift, BitVec.getLsbD_eq_getElem inWord]

theorem putByteNumber_eq {index : Nat} (inside : index < 4) (value : Byte) (source : Word) :
    putByteNumber index value source = withByte source index value := by
  obtain ⟨low, high⟩ := byteField_bounds index
  have mask : (0xffffffff#32 <<< (31 - (8 * index + 7))) >>> (8 * index + (31 - (8 * index + 7))) =
      (BitVec.allOnes 8).setWidth 32 := by
    obtain rfl | rfl | rfl | rfl : index = 0 ∨ index = 1 ∨ index = 2 ∨ index = 3 := by omega
    all_goals decide
  unfold putByteNumber
  rw [if_neg (by omega)]
  dsimp only
  rw [high, low, clearBits_eq (by omega) (by omega), mask, Int.toNat_natCast]
  rfl

theorem buildWord_eq (byte0 byte1 byte2 byte3 : Byte) :
    buildWord byte0 byte1 byte2 byte3 = joinBytes byte0 byte1 byte2 byte3 := by
  apply BitVec.eq_of_toNat_eq
  have bound0 := byte0.isLt
  have bound1 := byte1.isLt
  have bound2 := byte2.isLt
  have bound3 := byte3.isLt
  simp only [buildWord, joinBytes, byteSize, BitVec.toNat_ofNat, BitVec.toNat_add,
    BitVec.toNat_shiftLeft, BitVec.toNat_setWidth, Nat.shiftLeft_eq, show Int.toNat 8 = 8 by rfl]
  omega

/-- A word that stays inside memory when it is counted on does not wrap around. -/
theorem toInt_add_ofNat {address : Word} {length offset : Nat}
    (inside : 0 ≤ address.toInt ∧ address.toInt + length ≤ 65536) (small : offset < length) :
    (address + BitVec.ofNat 32 offset).toInt = address.toInt + offset := by
  have offsetInt : (BitVec.ofNat 32 offset).toInt = offset := by
    rw [BitVec.toInt_ofNat', Int.bmod_def]
    split <;> omega
  rw [BitVec.toInt_add, offsetInt, Int.bmod_def]
  split <;> omega

end Yess
