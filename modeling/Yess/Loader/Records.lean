import Yess.Loader.ObjectFile

/-!
# Writing records

The record with given bytes at a given address, for whoever writes object files.
-/

namespace Yess

open Lib.CString

theorem isxdigit_hexDigit : ∀ value : Fin 16, isxdigit (hexDigit value) = true := by
  decide

def HexDigit.ofFin (value : Fin 16) : HexDigit := ⟨hexDigit value, isxdigit_hexDigit value⟩

theorem HexDigit.value_ofFin (value : Fin 16) : (HexDigit.ofFin value).value = value.val :=
  Option.some.inj ((HexDigit.digit_eq _).symm.trans (digit_hexDigit value value.isLt))

def HexDigit.last (number : Nat) : HexDigit := .ofFin (Fin.ofNat 16 number)

theorem HexDigit.value_last (number : Nat) : (HexDigit.last number).value = number % 16 :=
  HexDigit.value_ofFin _

def byteDigits (byte : Byte) : HexDigit × HexDigit :=
  (.last (byte.toNat / 16), .last byte.toNat)

theorem byteDigits_value (byte : Byte) :
    BitVec.ofNat 8 ((byteDigits byte).1.value * 16 + (byteDigits byte).2.value) = byte := by
  have bound := byte.isLt
  rw [byteDigits, HexDigit.value_last, HexDigit.value_last,
    show byte.toNat / 16 % 16 * 16 + byte.toNat % 16 = byte.toNat by omega, BitVec.ofNat_toNat,
    BitVec.setWidth_eq]

/-! ## The columns of a record -/

def digits (data : List (HexDigit × HexDigit)) : Text :=
  data.flatMap fun pair => [pair.1.char, pair.2.char]

theorem length_digits (data : List (HexDigit × HexDigit)) :
    (digits data).length = 2 * data.length := by
  induction data with
  | nil => rfl
  | cons pair rest ih =>
      change (digits rest).length + 1 + 1 = 2 * (rest.length + 1)
      rw [ih]
      omega

theorem digits_append (data more : List (HexDigit × HexDigit)) :
    digits (data ++ more) = digits data ++ digits more := List.flatMap_append

theorem dataColumn_eq (r : DataRecord) (offset : Nat) :
    r.dataColumn offset = (r.data[offset / 2]?).elim space fun pair =>
      if offset % 2 = 0 then pair.1.char else pair.2.char := by
  unfold DataRecord.dataColumn
  cases r.data[offset / 2]? with
  | none => rfl
  | some pair => rfl

/-- The data columns hold the digits, and spaces behind them. -/
theorem dataColumns_eq (r : DataRecord) (behind : Nat) :
    (List.range (2 * r.data.length + behind)).map r.dataColumn =
      digits r.data ++ List.replicate behind space := by
  rw [funext (dataColumn_eq r)]
  generalize r.data = data
  induction data with
  | nil => simp [digits]
  | cons pair rest ih =>
      rw [List.length_cons, show 2 * (rest.length + 1) + behind =
        2 * rest.length + behind + 1 + 1 by omega, List.range_succ_eq_map, List.range_succ_eq_map]
      simp only [List.map_cons, List.map_map]
      refine congrArg (pair.1.char :: pair.2.char :: ·) ((List.map_congr_left ?_).trans ih)
      intro offset _
      have half : (offset + 1 + 1) / 2 = offset / 2 + 1 := by omega
      have parity : (offset + 1 + 1) % 2 = offset % 2 := by omega
      simp only [Function.comp_apply, Nat.succ_eq_add_one, half, parity, List.getElem?_cons_succ]

theorem columns_data (r : DataRecord) :
    (Record.data r).columns =
      [space, space, ch '0', ch 'x', r.high.char, r.middle.char, r.low.char, ch ':', space] ++
        (digits r.data ++ List.replicate (13 - 2 * r.data.length) space) ++ [ch '|'] := by
  have short := r.short
  rw [← dataColumns_eq, show 2 * r.data.length + (13 - 2 * r.data.length) = 13 by omega]
  rfl

/-! ## Records from bytes -/

def oneLine (text : Text) : Text := text.takeWhile (· ≠ newline)

theorem newline_notMem_oneLine (text : Text) : newline ∉ oneLine text := by
  intro member
  have different := @List.mem_takeWhile_imp Byte (· ≠ newline) text newline member
  exact of_decide_eq_true different rfl

theorem oneLine_eq {text : Text} (clean : newline ∉ text) : oneLine text = text :=
  List.takeWhile_eq_self_iff.mpr fun _ member =>
    decide_eq_true fun isNewline => clean (isNewline ▸ member)

/-- The data record at an address, with up to six bytes and the text behind the bar. -/
def dataRecord (address : Nat) (bytes : List Byte) (tail : Text) : DataRecord where
  high := .last (address / 256)
  middle := .last (address / 16)
  low := .last address
  data := (bytes.take 6).map byteDigits
  short := (List.length_map _).trans_le (List.length_take_le _ _)
  tail := oneLine tail
  oneLine := newline_notMem_oneLine tail

def commentRecord (tail : Text) : CommentRecord := ⟨oneLine tail, newline_notMem_oneLine tail⟩

theorem dataRecord_address {address : Nat} (small : address < 4096) (bytes : List Byte)
    (tail : Text) : (dataRecord address bytes tail).address = address := by
  unfold DataRecord.address dataRecord
  dsimp only
  rw [HexDigit.value_last, HexDigit.value_last, HexDigit.value_last]
  omega

theorem dataRecord_bytes (address : Nat) {bytes : List Byte} (short : bytes.length ≤ 6)
    (tail : Text) : (dataRecord address bytes tail).bytes = bytes := by
  unfold DataRecord.bytes dataRecord
  dsimp only
  rw [List.take_of_length_le short, List.map_map]
  exact (List.map_congr_left fun byte _ => byteDigits_value byte).trans (List.map_id _)

end Yess
