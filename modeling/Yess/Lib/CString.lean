import Mathlib.Data.List.TakeWhile
import Mathlib.Data.Nat.Digits.Defs
import Mathlib.Data.BitVec

/-!
# C strings and the functions on them

Texts are lists of bytes.  The functions are the ones of the C library in the
"C" locale, on the part of a text before its first NUL.
-/

namespace Yess.Lib.CString

abbrev Text := List (BitVec 8)

abbrev nul : BitVec 8 := 0x00
abbrev tab : BitVec 8 := 0x09
abbrev newline : BitVec 8 := 0x0a
abbrev space : BitVec 8 := 0x20

def ch (c : Char) : BitVec 8 := BitVec.ofNat 8 c.toNat

def ascii (s : String) : Text := s.toList.map ch

/-- The string that a text starts with. -/
def cstring (text : Text) : Text := text.takeWhile (· ≠ nul)

def isblank (c : BitVec 8) : Bool := c = space || c = tab

def isspace (c : BitVec 8) : Bool := c = space || (0x09 ≤ c && c ≤ 0x0d)

def digitValue (c : BitVec 8) : Option Nat :=
  if 0x30 ≤ c ∧ c ≤ 0x39 then some (c.toNat - 0x30)
  else if 0x41 ≤ c ∧ c ≤ 0x5a then some (c.toNat - 0x41 + 10)
  else if 0x61 ≤ c ∧ c ≤ 0x7a then some (c.toNat - 0x61 + 10)
  else none

/-- The value of a character that is a digit in the given base. -/
def digit (base : Nat) (c : BitVec 8) : Option Nat :=
  (digitValue c).filter (· < base)

def isxdigit (c : BitVec 8) : Bool := (digit 16 c).isSome

def strcspn (s : Text) (c : BitVec 8) : Nat := (s.takeWhile (· ≠ c)).length

def strrchr : Text → BitVec 8 → Option Text
  | [], _ => none
  | first :: rest, c =>
      match strrchr rest c with
      | some found => some found
      | none => if first = c then some (first :: rest) else none

/-- The lines of a file as `getline` reads them, each with its newline. -/
def getlines : Text → List Text
  | [] => []
  | c :: rest =>
      if c = newline then [c] :: getlines rest
      else
        match getlines rest with
        | [] => [[c]]
        | line :: others => (c :: line) :: others

/-- The lines of a file as `fgets` reads them into a buffer of `size` characters, when
`room` more characters fit in the buffer: a line that is too long is cut. -/
def fgetsFrom (size : Nat) : Nat → Text → List Text
  | _, [] => []
  | room, c :: rest =>
      if c = newline ∨ room = 1 then [c] :: fgetsFrom size (size - 1) rest
      else
        match fgetsFrom size (room - 1) rest with
        | [] => [[c]]
        | line :: others => (c :: line) :: others

def fgetsLines (size : Nat) (text : Text) : List Text := fgetsFrom size (size - 1) text

/-! ## Numbers -/

/-- `LONG_MAX` and `LONG_MIN` of a 64-bit `long`. -/
abbrev longMax : Int := 9223372036854775807
abbrev longMin : Int := -9223372036854775808

/-- The number that the digits at the start of a text continue, and the rest of the text. -/
def scanDigits (base : Nat) : Text → Nat → Nat × Text
  | [], number => (number, [])
  | c :: rest, number =>
      match digit base c with
      | some value => scanDigits base rest (number * base + value)
      | none => (number, c :: rest)

/-- What `strtol` gives: the number, the text behind it, and whether the number
did not fit. -/
structure Strtol where
  value : Int
  rest : Text
  outOfRange : Bool
  deriving DecidableEq, Repr

def scanSign : Text → Bool × Text
  | [] => (false, [])
  | c :: rest =>
      if c = ch '-' then (true, rest) else if c = ch '+' then (false, rest) else (false, c :: rest)

/-- The text behind a `0x` that a hexadecimal digit follows; other texts are kept. -/
def skipBase (base : Nat) : Text → Text
  | zero :: x :: first :: rest =>
      if base = 16 ∧ zero = ch '0' ∧ (x = ch 'x' ∨ x = ch 'X') ∧ isxdigit first then first :: rest
      else zero :: x :: first :: rest
  | text => text

/-- `strtol`: blanks, a sign, a base prefix and digits.  Without a digit nothing is
converted and `rest` is the whole text. -/
def strtol (s : Text) (base : Nat) : Strtol :=
  let signed := scanSign (s.dropWhile isspace)
  let digits := skipBase base signed.2
  if (digits.head?.bind (digit base)).isNone then ⟨0, s, false⟩
  else
    let scanned := scanDigits base digits 0
    let number : Int := if signed.1 then -(scanned.1 : Int) else scanned.1
    if number > longMax then ⟨longMax, scanned.2, true⟩
    else if number < longMin then ⟨longMin, scanned.2, true⟩
    else ⟨number, scanned.2, false⟩

/-! ## Printing numbers -/

def hexDigit (value : Nat) : BitVec 8 :=
  if value < 10 then BitVec.ofNat 8 (0x30 + value) else BitVec.ofNat 8 (0x57 + value)

/-- `%0<width>x`: the hexadecimal digits of a number, filled up with zeros. -/
def formatHex (width number : Nat) : Text :=
  let digits := (Nat.digits 16 number).reverse.map hexDigit
  List.replicate (width - digits.length) (ch '0') ++ digits

/-! ## Facts about characters and lines -/

theorem digit_lt {base : Nat} {c : BitVec 8} {value : Nat} (isDigit : digit base c = some value) :
    value < base := by
  unfold digit at isDigit
  exact of_decide_eq_true (Option.filter_eq_some_iff.mp isDigit).2

/-- The conversion of a text without a minus sign, from its scan. -/
theorem strtol_of_scanDigits {s body rest : Text} {base number : Nat}
    (positive : (scanSign (s.dropWhile isspace)).1 = false)
    (skipped : skipBase base (scanSign (s.dropWhile isspace)).2 = body)
    (starts : (body.head?.bind (digit base)).isNone = false)
    (scanned : scanDigits base body 0 = (number, rest)) (fits : (number : Int) ≤ longMax) :
    strtol s base = ⟨number, rest, false⟩ := by
  have notSmall : ¬ (number : Int) < longMin := by
    simp only [longMin]
    omega
  unfold strtol
  simp only [positive, skipped, starts, scanned, Bool.false_eq_true, if_false,
    Int.not_lt.mpr fits, notSmall]

theorem not_special_of_isxdigit : ∀ c : BitVec 8, isxdigit c = true →
    isspace c = false ∧ c ≠ ch '-' ∧ c ≠ ch '+' ∧ c ≠ ch ':' ∧ c ≠ nul ∧ c ≠ newline := by
  decide +kernel

theorem not_x_of_isxdigit {c : BitVec 8} (isHex : isxdigit c = true) :
    ¬ (c = ch 'x' ∨ c = ch 'X') := by
  rintro (rfl | rfl)
  · exact absurd isHex (by decide)
  · exact absurd isHex (by decide)

/-- The number that a row of digits stands for, behind a number already read. -/
def readDigits (base : Nat) (text : Text) (number : Nat) : Nat :=
  text.foldl (fun number c => number * base + (digit base c).getD 0) number

def hexValue (text : Text) : Nat := readDigits 16 text 0

theorem readDigits_append (base : Nat) (text more : Text) (number : Nat) :
    readDigits base (text ++ more) number = readDigits base more (readDigits base text number) :=
  List.foldl_append

theorem scanDigits_append {base : Nat} {text rest : Text} (number : Nat)
    (digits : ∀ c ∈ text, (digit base c).isSome = true)
    (stop : ∀ c ∈ rest.head?, digit base c = none) :
    scanDigits base (text ++ rest) number = (readDigits base text number, rest) := by
  induction text generalizing number with
  | nil =>
      cases rest with
      | nil => rfl
      | cons c later =>
          rw [List.nil_append, scanDigits, stop c rfl]
          rfl
  | cons c others ih =>
      obtain ⟨value, isDigit⟩ := Option.isSome_iff_exists.mp (digits c List.mem_cons_self)
      rw [List.cons_append, scanDigits, isDigit]
      dsimp only
      rw [ih _ fun later member => digits later (List.mem_cons_of_mem _ member), readDigits,
        readDigits, List.foldl_cons, isDigit]
      rfl

theorem scanDigits_digits {base : Nat} {text : Text} (number : Nat)
    (digits : ∀ c ∈ text, (digit base c).isSome = true) :
    scanDigits base text number = (readDigits base text number, []) := by
  have scanned := @scanDigits_append base text [] number digits nofun
  rwa [List.append_nil] at scanned

theorem readDigits_lt (text : Text) (number : Nat) :
    readDigits 16 text number < (number + 1) * 16 ^ text.length := by
  induction text generalizing number with
  | nil => simp [readDigits]
  | cons c rest ih =>
      have small : (digit 16 c).getD 0 < 16 := by
        cases isDigit : digit 16 c with
        | none => exact Nat.zero_lt_succ 15
        | some value => exact digit_lt isDigit
      refine Nat.lt_of_lt_of_le (ih (number * 16 + (digit 16 c).getD 0)) ?_
      rw [List.length_cons, Nat.pow_succ, Nat.mul_comm (16 ^ rest.length) 16, ← Nat.mul_assoc]
      exact Nat.mul_le_mul_right _ (by omega)

theorem hexValue_lt (text : Text) : hexValue text < 16 ^ text.length := by
  have bound := readDigits_lt text 0
  rwa [Nat.zero_add, Nat.one_mul] at bound

theorem strtol_hexValue {text : Text} (nonempty : text ≠ [])
    (digits : ∀ c ∈ text, isxdigit c = true) (fits : (hexValue text : Int) ≤ longMax) :
    strtol text 16 = ⟨hexValue text, [], false⟩ := by
  obtain ⟨first, rest, rfl⟩ := List.exists_cons_of_ne_nil nonempty
  have firstDigit := digits first List.mem_cons_self
  obtain ⟨notSpace, notMinus, notPlus, -⟩ := not_special_of_isxdigit first firstDigit
  have signed : scanSign ((first :: rest).dropWhile isspace) = (false, first :: rest) := by
    rw [List.dropWhile_cons_of_neg (by simp [notSpace]), scanSign, if_neg notMinus,
      if_neg notPlus]
  have noPrefix : skipBase 16 (first :: rest) = first :: rest := by
    unfold skipBase
    split
    · case h_1 zero x third more same =>
        obtain ⟨rfl, rest⟩ := List.cons.inj same
        have second : isxdigit x = true := digits x (by rw [rest]; simp)
        rw [if_neg fun base => not_x_of_isxdigit second base.2.2.1, same]
    · rfl
  refine strtol_of_scanDigits ?_ ?_ ?_ (scanDigits_digits 0 digits) fits
  · rw [signed]
  · rw [signed]
    exact noPrefix
  · obtain ⟨value, isDigit⟩ := Option.isSome_iff_exists.mp firstDigit
    simp [isDigit]

theorem digit_hexDigit : ∀ value, value < 16 → digit 16 (hexDigit value) = some value := by
  decide

theorem readDigits_reverse {digits : List Nat} (small : ∀ value ∈ digits, value < 16) :
    readDigits 16 (digits.reverse.map hexDigit) 0 = Nat.ofDigits 16 digits := by
  induction digits with
  | nil => rfl
  | cons value rest ih =>
      have isDigit := digit_hexDigit value (small value List.mem_cons_self)
      rw [List.reverse_cons, List.map_append, readDigits_append,
        ih fun other member => small other (List.mem_cons_of_mem _ member), Nat.ofDigits_cons]
      change Nat.ofDigits 16 rest * 16 + (digit 16 (hexDigit value)).getD 0 = _
      rw [isDigit, Option.getD_some, Nat.mul_comm, Nat.add_comm]

theorem readDigits_replicate_zero (count : Nat) (text : Text) :
    readDigits 16 (List.replicate count (ch '0') ++ text) 0 = readDigits 16 text 0 := by
  induction count with
  | zero => rfl
  | succ count ih =>
      rw [List.replicate_succ, List.cons_append]
      exact ih

theorem digits_small (number : Nat) : ∀ value ∈ Nat.digits 16 number, value < 16 :=
  fun _ member => Nat.digits_lt_base (by decide) member

theorem isxdigit_of_mem_formatHex {width number : Nat} {c : BitVec 8}
    (member : c ∈ formatHex width number) : isxdigit c = true := by
  unfold isxdigit
  rcases List.mem_append.mp member with isZero | isDigit
  · rw [List.eq_of_mem_replicate isZero]
    rfl
  · obtain ⟨value, isValue, rfl⟩ := List.mem_map.mp isDigit
    rw [digit_hexDigit value (digits_small number value (List.mem_reverse.mp isValue))]
    rfl

theorem le_length_formatHex (width number : Nat) : width ≤ (formatHex width number).length := by
  unfold formatHex
  dsimp only
  rw [List.length_append, List.length_replicate]
  omega

/-- A printed number is read back. -/
theorem hexValue_formatHex (width number : Nat) : hexValue (formatHex width number) = number := by
  unfold hexValue formatHex
  dsimp only
  rw [readDigits_replicate_zero, readDigits_reverse (digits_small number), Nat.ofDigits_digits]

theorem scanDigits_formatHex (width number : Nat) {rest : Text}
    (stop : ∀ c ∈ rest.head?, digit 16 c = none) :
    scanDigits 16 (formatHex width number ++ rest) 0 = (number, rest) := by
  rw [scanDigits_append 0 (fun c member => isxdigit_of_mem_formatHex member) stop]
  exact congrArg (fun value => (value, rest)) (hexValue_formatHex width number)

/-- A check of the columns from `start` through `last` looks at each of them. -/
theorem all_range'_iff {start last : Nat} {check : Nat → Bool} :
    (List.range' start (last + 1 - start)).all check = true ↔
      ∀ column, start ≤ column → column ≤ last → check column = true := by
  rw [List.all_eq_true]
  constructor
  · intro checked column lower upper
    exact checked column (List.mem_range'_1.mpr ⟨lower, by omega⟩)
  · intro checked column member
    obtain ⟨lower, upper⟩ := List.mem_range'_1.mp member
    exact checked column lower (by omega)

theorem cstring_of_notMem {text : Text} (clean : nul ∉ text) : cstring text = text := by
  refine List.takeWhile_eq_self_iff.mpr fun c mem => ?_
  exact decide_eq_true fun zero => clean (zero ▸ mem)

/-- The string of a text that starts without a NUL starts in the same way. -/
theorem cstring_append {text : Text} (clean : nul ∉ text) (more : Text) :
    cstring (text ++ more) = text ++ cstring more := by
  refine List.takeWhile_append_of_pos fun c mem => ?_
  exact decide_eq_true fun zero => clean (zero ▸ mem)

theorem getlines_line {body : Text} (oneLine : newline ∉ body) (more : Text) :
    getlines (body ++ newline :: more) = (body ++ [newline]) :: getlines more := by
  induction body with
  | nil => simp [getlines]
  | cons c rest ih =>
      obtain ⟨other, later⟩ := List.ne_and_not_mem_of_not_mem_cons oneLine
      rw [List.cons_append, getlines, if_neg other.symm, ih later]
      rfl

theorem getlines_append {body : Text} (oneLine : newline ∉ body) (nonempty : body ≠ [])
    (more : Text) : ∃ tail others, getlines (body ++ more) = (body ++ tail) :: others := by
  induction body with
  | nil => exact absurd rfl nonempty
  | cons c rest ih =>
      obtain ⟨other, later⟩ := List.ne_and_not_mem_of_not_mem_cons oneLine
      rw [List.cons_append, getlines, if_neg other.symm]
      cases rest with
      | nil =>
          cases getlines ([] ++ more) with
          | nil => exact ⟨[], [], rfl⟩
          | cons line others => exact ⟨line, others, rfl⟩
      | cons next rest =>
          obtain ⟨tail, others, lines⟩ := ih later (List.cons_ne_nil _ _)
          rw [lines]
          exact ⟨tail, others, rfl⟩

theorem getlines_unterminated {body : Text} (oneLine : newline ∉ body) (nonempty : body ≠ []) :
    getlines body = [body] := by
  induction body with
  | nil => exact absurd rfl nonempty
  | cons c rest ih =>
      obtain ⟨other, later⟩ := List.ne_and_not_mem_of_not_mem_cons oneLine
      cases rest with
      | nil => exact if_neg other.symm
      | cons next others =>
          rw [getlines, if_neg other.symm, ih later (List.cons_ne_nil _ _)]

theorem ne_nil_of_getlines {text line : Text} {others : List Text}
    (lines : getlines text = line :: others) : line ≠ [] := by
  rintro rfl
  cases text with
  | nil => exact nomatch lines
  | cons c rest =>
      rw [getlines] at lines
      split at lines
      · exact nomatch (List.cons.inj lines).1
      · split at lines
        · exact nomatch (List.cons.inj lines).1
        · exact nomatch (List.cons.inj lines).1

/-- While every line fits in what is left of the buffer, `fgets` reads whole lines. -/
theorem fgetsFrom_eq_getlines {size room : Nat} (two : 2 ≤ size) {text : Text}
    (first : ∀ line ∈ (getlines text).head?, line.length ≤ room)
    (later : ∀ line ∈ (getlines text).tail, line.length < size) :
    fgetsFrom size room text = getlines text := by
  induction text generalizing room with
  | nil => rfl
  | cons c rest ih =>
      by_cases isNewline : c = newline
      · rw [getlines, if_pos isNewline, List.tail_cons] at later
        rw [fgetsFrom, getlines, if_pos (Or.inl isNewline), if_pos isNewline, ih]
        · intro line member
          have short := later line (List.mem_of_mem_head? member)
          omega
        · exact fun line member => later line (List.mem_of_mem_tail member)
      · rw [getlines, if_neg isNewline] at first later
        rw [fgetsFrom, getlines, if_neg isNewline]
        cases lines : getlines rest with
        | nil =>
            rw [lines] at ih
            obtain same : ∀ room, fgetsFrom size room rest = [] := fun room => ih nofun nofun
            simp [same]
        | cons line others =>
            rw [lines] at first later
            have short : (c :: line).length ≤ room := first _ rfl
            have long := List.length_pos_of_ne_nil (ne_nil_of_getlines lines)
            rw [List.length_cons] at short
            have rest := @ih (room - 1)
            rw [if_neg (not_or.mpr ⟨isNewline, by omega⟩), rest, lines]
            · rw [lines]
              rintro _ ⟨⟩
              omega
            · rwa [lines]

/-- When all lines fit in the buffer, `fgets` reads the lines that `getline` reads. -/
theorem fgetsLines_eq_getlines {size : Nat} (two : 2 ≤ size) {text : Text}
    (short : ∀ line ∈ getlines text, line.length < size) :
    fgetsLines size text = getlines text := by
  refine fgetsFrom_eq_getlines two (fun line member => ?_) fun line member =>
    short line (List.mem_of_mem_tail member)
  have fits := short line (List.mem_of_mem_head? member)
  omega

theorem exists_line_of_getlines {text line second : Text} {others : List Text}
    (lines : getlines text = line :: second :: others) :
    ∃ body more, newline ∉ body ∧ line = body ++ [newline] ∧
      getlines more = second :: others := by
  induction text generalizing line with
  | nil => exact nomatch lines
  | cons c rest ih =>
      rw [getlines] at lines
      split at lines
      · case isTrue isNewline =>
          obtain ⟨rfl, more⟩ := List.cons.inj lines
          exact ⟨[], rest, List.not_mem_nil, by rw [isNewline]; rfl, more⟩
      · case isFalse other =>
          split at lines
          · exact nomatch (List.cons.inj lines).2
          · case h_2 first later restLines =>
              obtain ⟨rfl, rfl⟩ := List.cons.inj lines
              obtain ⟨body, more, oneLine, rfl, moreLines⟩ := ih restLines
              refine ⟨c :: body, more, fun member => ?_, rfl, moreLines⟩
              rcases List.mem_cons.mp member with same | later
              · exact other same.symm
              · exact oneLine later

theorem getlines_flatten {text record : Text} {before after : List Text}
    (lines : getlines text = before ++ record :: after) : getlines before.flatten = before := by
  induction before generalizing text with
  | nil => rfl
  | cons line rest ih =>
      obtain ⟨second, others, next⟩ : ∃ second others, rest ++ record :: after = second :: others :=
        List.exists_cons_of_ne_nil (by simp)
      rw [List.cons_append, next] at lines
      obtain ⟨body, more, oneLine, rfl, moreLines⟩ := exists_line_of_getlines lines
      rw [List.flatten_cons, List.append_assoc, List.singleton_append, getlines_line oneLine,
        ih (moreLines.trans next.symm)]

end Yess.Lib.CString
