import Yess.Isa.Step
import Yess.Memory
import Yess.Pipeline.Operands

/-!
# Bytes, words and registers of the simulator

The simulator keeps bytes where the pipeline keeps words.  The lemmas say what its
accesses read and write, and when its two arrays hold the memory and the registers
of the sequential machine.
-/

namespace Yess.Isa

open Lib.BitField Lib.ByteStore

/-! ## Words in an array of bytes -/

theorem byteAt_or (first second : Word) (index : Nat) :
    byteAt (first ||| second) index = byteAt first index ||| byteAt second index := by
  apply BitVec.eq_of_getElem_eq
  intro bit lt
  simp

theorem byteAt_shifted (byte : Byte) {place index : Nat} (placeSmall : place < 4)
    (indexSmall : index < 4) :
    byteAt (byte.setWidth 32 <<< (8 * place)) index = if place = index then byte else 0 := by
  have bytes : ∀ (byte : Byte) (place index : Fin 4),
      byteAt (byte.setWidth 32 <<< (8 * place.val)) index.val =
        if place.val = index.val then byte else 0 := by
    decide +kernel
  exact bytes byte ⟨place, placeSmall⟩ ⟨index, indexSmall⟩

theorem getWordVal_of_inside {m : Mem} {pos : Nat} (inside : pos + 4 ≤ m.len) :
    getWordVal m pos =
      some (joinBytes (m.contents pos) (m.contents (pos + 1)) (m.contents (pos + 2))
        (m.contents (pos + 3))) := by
  have joined (b0 b1 b2 b3 : Byte) :
      (0 : Word) ||| b0.setWidth 32 <<< (8 * 0) ||| b1.setWidth 32 <<< (8 * 1) |||
        b2.setWidth 32 <<< (8 * 2) ||| b3.setWidth 32 <<< (8 * 3) = joinBytes b0 b1 b2 b3 := by
    have zero (index : Nat) : byteAt (0 : Word) index = 0 := by simp [byteAt]
    rw [← joinBytes_byteAt (_ ||| b3.setWidth 32 <<< (8 * 3))]
    congr 1
    all_goals
      simp (disch := decide) only [byteAt_or, zero, byteAt_shifted]
      simp
  unfold getWordVal
  rw [if_neg (by omega)]
  exact congrArg some (joined _ _ _ _)

theorem lowByte_sshiftRight (val : Word) {index : Nat} (small : index < 4) :
    ((val.sshiftRight (8 * index) &&& 0xFF).setWidth 8 : Byte) = byteAt val index := by
  apply BitVec.eq_of_getElem_eq
  intro bit lt
  have ones : ∀ bit < 8, (0xFF#32).getLsbD bit = true := by decide
  have inside : 8 * index + bit < 32 := by omega
  have low : ¬ 32 ≤ bit := by omega
  rw [getElem_byteAt _ _ _ lt, BitVec.getElem_setWidth, BitVec.getLsbD_and,
    BitVec.getLsbD_sshiftRight]
  simp [inside, low, ones bit lt]

theorem setBytes_apply (contents : Nat → Byte) (pos : Nat) (val : Word) (count other : Nat) :
    setBytes contents pos val count other =
      if pos ≤ other ∧ other < pos + count then
        (val.sshiftRight (8 * (other - pos)) &&& 0xFF).setWidth 8
      else contents other := by
  induction count generalizing contents pos val with
  | zero =>
      rw [setBytes, if_neg]
      omega
  | succ count ih =>
      rw [setBytes, ih]
      by_cases behind : pos + 1 ≤ other ∧ other < pos + 1 + count
      · rw [if_pos behind, if_pos (by omega), ← BitVec.sshiftRight_add,
          show 8 + 8 * (other - (pos + 1)) = 8 * (other - pos) by omega]
      · rw [if_neg behind]
        by_cases first : other = pos
        · rw [if_pos (by omega), first, Function.update_self, Nat.sub_self, Nat.mul_zero,
            BitVec.sshiftRight_zero]
        · rw [if_neg (by omega), Function.update_of_ne first]

theorem setWordVal_of_inside {m : Mem} {pos : Nat} (inside : pos + 4 ≤ m.len) (val : Word) :
    ∃ contents, setWordVal m pos val = some ⟨m.len, contents⟩ ∧
      (∀ index < 4, contents (pos + index) = byteAt val index) ∧
      ∀ other, ¬ (pos ≤ other ∧ other < pos + 4) → contents other = m.contents other := by
  refine ⟨setBytes m.contents pos val 4, ?_, fun index small => ?_, fun other elsewhere => ?_⟩
  · unfold setWordVal
    rw [if_neg (by omega)]
    rfl
  · rw [setBytes_apply, if_pos (by omega), Nat.add_sub_cancel_left, lowByte_sshiftRight val small]
  · rw [setBytes_apply, if_neg elsewhere]

/-! ## Registers -/

theorem regValid_eq (id : Nat) : regValid id = decide (id < 8) := by
  unfold regValid
  by_cases small : id < 17
  · have ids : ∀ id < 17, (decide (id < regNone) && decide (regTable[id]? = some id)) =
        decide (id < 8) := by decide
    exact ids id small
  · have out : ¬ id < regNone := by
      simp only [regNone]
      omega
    rw [decide_eq_false out, Bool.false_and, decide_eq_false (by omega)]

/-- The array of registers holds a register file. -/
structure Holds (r : Mem) (file : RegisterFile) : Prop where
  len : r.len = 32
  word : ∀ place : Fin 8, getWordVal r (place.val * 4 : Nat) = some (file place)

theorem holds_initReg : Holds initReg fun _ => 0 := by
  refine ⟨rfl, fun place => ?_⟩
  have bound := place.isLt
  have len : initReg.len = 32 := rfl
  rw [getWordVal_of_inside (by omega)]
  rfl

/-- Past the last register nothing is read. -/
theorem getWordVal_past {r : Mem} (len : r.len = 32) {id : Nat} (past : 8 ≤ id) :
    getWordVal r (id * 4 : Nat) = none := by
  unfold getWordVal
  rw [if_pos (by omega)]

theorem Holds.get {r : Mem} {file : RegisterFile} (holds : Holds r file) (id : Nat) :
    getRegVal r id = file.read id := by
  unfold getRegVal RegisterFile.read
  by_cases inside : id < 8
  · have isRegister : IsRegister id := by
      unfold IsRegister regSize
      omega
    rw [if_neg (by simp only [regNone]; omega), dif_pos isRegister, holds.word ⟨id, inside⟩]
    rfl
  · have notRegister : ¬ IsRegister id := by
      unfold IsRegister regSize
      omega
    rw [dif_neg notRegister]
    split
    · rfl
    · rw [getWordVal_past holds.len (by omega)]
      rfl

/-- A write to the array is the write to the register file, whatever the id. -/
theorem Holds.set {r : Mem} {file : RegisterFile} (holds : Holds r file) (id : Nat) (val : Word) :
    Holds (setRegVal r id val) (file.write id val) := by
  unfold setRegVal
  by_cases inside : id < 8
  · obtain ⟨contents, stored, here, elsewhere⟩ :=
      @setWordVal_of_inside r (id * 4) (by have := holds.len; omega) val
    rw [if_pos (by simp only [regNone]; omega), stored]
    refine ⟨holds.len, fun place => ?_⟩
    have bound := place.isLt
    have len := holds.len
    change getWordVal ⟨r.len, contents⟩ _ = _
    rw [getWordVal_of_inside (by simp only; omega)]
    unfold RegisterFile.write
    by_cases same : place.val = id
    · rw [if_pos (by omega), same]
      have first := here 0 (by decide)
      rw [Nat.add_zero] at first
      dsimp only
      rw [first, here 1 (by decide), here 2 (by decide), here 3 (by decide), joinBytes_byteAt]
    · rw [if_neg (by omega), ← holds.word place, getWordVal_of_inside (by omega)]
      dsimp only
      rw [elsewhere _ (by omega), elsewhere _ (by omega), elsewhere _ (by omega),
        elsewhere _ (by omega)]
  · have unchanged : file.write id val = file := by
      funext place
      have bound := place.isLt
      exact if_neg (by omega)
    rw [unchanged]
    split
    · unfold setWordVal
      rw [if_pos (by have := holds.len; omega)]
      exact holds
    · exact holds

/-! ## Memory -/

/-- The array of bytes is the first part of the memory. -/
structure SameBytes (m : Mem) (memory : Memory) : Prop where
  small : m.len ≤ 65536
  byte : ∀ pos < m.len, m.contents pos = Lib.ByteStore.load (bytesOf memory) pos

theorem SameBytes.getByteVal {m : Mem} {memory : Memory} (same : SameBytes m memory) {pos : Int}
    (inside : 0 ≤ pos ∧ pos < m.len) :
    getByteVal m pos = some (getByte memory pos).1 ∧ (getByte memory pos).2 = false := by
  obtain ⟨index, rfl⟩ := Int.eq_ofNat_of_zero_le inside.1
  have range : InRange 65536 index := by
    have small := same.small
    unfold InRange
    omega
  rw [getByte_eq, readByte, if_pos range]
  refine ⟨?_, rfl⟩
  unfold Isa.getByteVal
  rw [if_neg (by omega), Int.toNat_natCast, same.byte index (by omega)]

theorem SameBytes.getWordVal_bytes {m : Mem} {memory : Memory} (same : SameBytes m memory)
    {pos : Int} (inside : 0 ≤ pos ∧ pos + 4 ≤ m.len) :
    getWordVal m pos =
      some (joinBytes (getByte memory pos).1 (getByte memory (pos + 1)).1
        (getByte memory (pos + 2)).1 (getByte memory (pos + 3)).1) := by
  have byte (offset : Nat) (below : offset < 4) :
      m.contents (pos.toNat + offset) = (getByte memory (pos + offset)).1 := by
    have within : 0 ≤ pos + offset ∧ pos + offset < m.len := by omega
    have found := (same.getByteVal within).1
    unfold Isa.getByteVal at found
    rw [if_neg (by omega), show (pos + offset).toNat = pos.toNat + offset by omega] at found
    exact Option.some.inj found
  obtain ⟨index, rfl⟩ := Int.eq_ofNat_of_zero_le inside.1
  rw [getWordVal_of_inside (by omega)]
  have first := byte 0 (by decide)
  have second := byte 1 (by decide)
  have third := byte 2 (by decide)
  have fourth := byte 3 (by decide)
  rw [Int.toNat_natCast] at first second third fourth
  rw [Nat.add_zero] at first
  rw [first, second, third, fourth]
  simp

theorem SameBytes.getWordVal {m : Mem} {memory : Memory} (same : SameBytes m memory) {pos : Int}
    (accepted : (getWord memory pos).2 = false) (inside : pos + 4 ≤ m.len) :
    getWordVal m pos = some (getWord memory pos).1 := by
  by_cases range : WordInRange 65536 pos
  · have lower := range.1.1
    obtain ⟨index, rfl⟩ := Int.eq_ofNat_of_zero_le lower
    have small := same.small
    rw [getWordVal_of_inside (by omega), getWord_eq, readWord, if_pos range]
    dsimp only
    rw [Int.toNat_natCast, same.byte _ (by omega), same.byte _ (by omega), same.byte _ (by omega),
      same.byte _ (by omega)]
  · rw [getWord_refused memory range] at accepted
    exact nomatch accepted

theorem SameBytes.setWordVal {m : Mem} {memory : Memory} (same : SameBytes m memory) {pos : Int}
    {val : Word} (accepted : (putWord memory pos val).2 = false) (inside : pos + 4 ≤ m.len) :
    ∃ stored, setWordVal m pos val = some stored ∧ stored.len = m.len ∧
      SameBytes stored (putWord memory pos val).1 := by
  by_cases range : WordInRange 65536 pos
  · have written := congrArg Prod.fst (putWord_eq memory pos val)
    unfold writeWord at written
    rw [if_pos range] at written
    have lower := range.1.1
    obtain ⟨index, rfl⟩ := Int.eq_ofNat_of_zero_le lower
    have small := same.small
    obtain ⟨contents, stored, here, elsewhere⟩ := @setWordVal_of_inside m index (by omega) val
    refine ⟨_, stored, rfl, small, fun other below => ?_⟩
    dsimp only at written below ⊢
    rw [Int.toNat_natCast] at written
    rw [written]
    by_cases covered : index ≤ other ∧ other < index + 4
    · obtain ⟨offset, rfl⟩ := Nat.exists_eq_add_of_le covered.1
      have four : offset < 4 := by omega
      rw [here offset four]
      obtain rfl | rfl | rfl | rfl : offset = 0 ∨ offset = 1 ∨ offset = 2 ∨ offset = 3 := by omega
      · simp (disch := omega) [load_store_same, load_store_other]
      · simp (disch := omega) [load_store_same, load_store_other]
      · simp (disch := omega) [load_store_same, load_store_other]
      · simp (disch := omega) [load_store_same]
    · rw [elsewhere other covered, same.byte other below, load_store_other _ _ (by omega),
        load_store_other _ _ (by omega), load_store_other _ _ (by omega),
        load_store_other _ _ (by omega)]
  · rw [putWord_refused memory range] at accepted
    exact nomatch accepted

end Yess.Isa
