import Yess.Dump
import Yess.Lib.RunLength

/-!
# Reading a memory dump

A reader of the text that `dumpMem` prints: each printed line gives the words from
its address on, and a star repeats it up to the next printed address, or up to the
end of memory.  The reader gives back every word.
-/

namespace Yess

open Lib.CString Lib.RunLength

/-! ## The reader -/

/-- The words at the start of a text, each with a space behind it, and the rest. -/
def readWords : Nat → Text → List Word × Text
  | 0, text => ([], text)
  | fuel + 1, text =>
      if (text.head?.bind (digit 16)).isSome then
        let scanned := scanDigits 16 text 0
        let others := readWords fuel (scanned.2.drop 1)
        (BitVec.ofNat 32 scanned.1 :: others.1, others.2)
      else ([], text)

/-- The address of a printed line, its words, and whether a star stands behind them.
The empty line behind a star gives nothing. -/
def readDumpLine (line : Text) : Option (Entry (List Word)) :=
  if line = [newline] then none
  else
    let address := scanDigits 16 line 0
    let words := readWords line.length (address.2.drop 2)
    some ⟨address.1, words.1, words.2.head? = some (ch '*')⟩

def readDump (text : Text) : List (Entry (List Word)) := (getlines text).filterMap readDumpLine

def lineSize (line : List Word) : Nat := 4 * line.length

/-- The words of memory that a dump stands for; `none` when a printed address is not
the one at which the words before it end. -/
def expandDump (text : Text) : Option (List Word) :=
  (expand lineSize 65536 0 (readDump text)).map List.flatten

/-! ## Printed lines -/

def printWords (words : List Word) : Text :=
  words.flatMap fun word => formatHex 8 word.toNat ++ [space]

def printEntry (entry : Entry (List Word)) : Text :=
  formatHex 3 entry.position ++ ascii ": " ++ printWords entry.value ++
    if entry.star then ascii "*" ++ [newline] else []

theorem length_printWords (words : List Word) : words.length ≤ (printWords words).length := by
  induction words with
  | nil => exact Nat.le_refl 0
  | cons word rest ih =>
      rw [printWords, List.flatMap_cons, List.length_append, List.length_append,
        List.length_singleton, List.length_cons]
      exact Nat.le_trans (Nat.succ_le_succ ih) (by unfold printWords; omega)

theorem readWords_printWords {words : List Word} {rest : Text} {fuel : Nat}
    (stop : ∀ c ∈ rest.head?, digit 16 c = none) (enough : words.length ≤ fuel) :
    readWords fuel (printWords words ++ rest) = (words, rest) := by
  induction words generalizing fuel with
  | nil =>
      cases fuel with
      | zero => rfl
      | succ fuel =>
          have noDigit : (rest.head?.bind (digit 16)).isSome = false := by
            cases first : rest.head? with
            | none => rfl
            | some c => simp [stop c first]
          exact if_neg (by rw [show printWords [] ++ rest = rest by rfl, noDigit]; decide)
  | cons word later ih =>
      obtain ⟨fuel, rfl⟩ := Nat.exists_eq_add_of_le' (Nat.le_trans (Nat.le_add_left 1 _) enough)
      have text : printWords (word :: later) ++ rest =
          formatHex 8 word.toNat ++ space :: (printWords later ++ rest) := by
        simp [printWords, List.append_assoc]
      have stopSpace : ∀ c ∈ (space :: (printWords later ++ rest)).head?, digit 16 c = none := by
        rintro c ⟨⟩
        decide
      have isDigit (behind : Text) :
          ((formatHex 8 word.toNat ++ behind).head?.bind (digit 16)).isSome = true := by
        have long := le_length_formatHex 8 word.toNat
        obtain ⟨first, others, digits⟩ := List.exists_cons_of_ne_nil
          (List.ne_nil_of_length_pos (Nat.lt_of_lt_of_le (by decide) long))
        have isHex : isxdigit first = true :=
          isxdigit_of_mem_formatHex (digits ▸ List.mem_cons_self)
        rw [digits]
        exact isHex
      rw [readWords, text, if_pos (isDigit _), scanDigits_formatHex 8 word.toNat stopSpace]
      dsimp only
      rw [List.drop_one, List.tail_cons, ih (Nat.le_of_succ_le_succ enough), BitVec.ofNat_toNat,
        BitVec.setWidth_eq]

theorem newline_notMem_printed (address : Nat) (words : List Word) :
    newline ∉ formatHex 3 address ++ ascii ": " ++ printWords words := by
  have notDigit (width number : Nat) : newline ∉ formatHex width number := fun member =>
    absurd (isxdigit_of_mem_formatHex member) (by decide)
  rw [List.mem_append, List.mem_append, not_or, not_or]
  refine ⟨⟨notDigit 3 address, by decide⟩, fun member => ?_⟩
  obtain ⟨word, -, inWord⟩ := List.mem_flatMap.mp member
  rcases List.mem_append.mp inWord with digits | isSpace
  · exact notDigit 8 word.toNat digits
  · exact absurd (List.mem_singleton.mp isSpace) (by decide)

def lineEnd (star : Bool) : Text := (if star then ascii "*" else []) ++ [newline]

theorem readDumpLine_print (address : Nat) (words : List Word) (star : Bool) :
    readDumpLine (formatHex 3 address ++ ascii ": " ++ printWords words ++ lineEnd star) =
      some ⟨address, words, star⟩ := by
  have text : formatHex 3 address ++ ascii ": " ++ printWords words ++ lineEnd star =
      formatHex 3 address ++ (ascii ": " ++ (printWords words ++ lineEnd star)) := by
    simp only [List.append_assoc]
  have long := le_length_formatHex 3 address
  have notEmpty : ¬ formatHex 3 address ++ (ascii ": " ++ (printWords words ++ lineEnd star)) =
      [newline] := by
    intro same
    have length := congrArg List.length same
    rw [List.length_append, List.length_singleton] at length
    omega
  have stopColon : ∀ c ∈ (ascii ": " ++ (printWords words ++ lineEnd star)).head?,
      digit 16 c = none := by
    rintro c ⟨⟩
    decide
  have stopEnd : ∀ c ∈ (lineEnd star).head?, digit 16 c = none := by
    cases star <;> rintro c ⟨⟩ <;> decide
  have enough : words.length ≤
      (formatHex 3 address ++ (ascii ": " ++ (printWords words ++ lineEnd star))).length := by
    have printed := length_printWords words
    simp only [List.length_append]
    omega
  unfold readDumpLine
  rw [text, if_neg notEmpty, scanDigits_formatHex 3 address stopColon]
  dsimp only
  rw [show (ascii ": " ++ (printWords words ++ lineEnd star)).drop 2 =
    printWords words ++ lineEnd star by rfl, readWords_printWords stopEnd enough]
  cases star <;> rfl

example : readDumpLine (ascii "010: 00000001 0000000a *" ++ [newline]) =
    some ⟨16, [1, 10], true⟩ := by
  decide +kernel

theorem readDump_cons (entry : Entry (List Word)) (more : Text) :
    readDump (printEntry entry ++ newline :: more) = entry :: readDump more := by
  obtain ⟨address, words, star⟩ := entry
  have body := newline_notMem_printed address words
  have line := readDumpLine_print address words star
  unfold readDump printEntry
  dsimp only
  cases star with
  | false =>
      rw [show lineEnd false = [newline] by rfl] at line
      rw [if_neg Bool.false_ne_true, List.append_nil, getlines_line body,
        List.filterMap_cons_some line]
  | true =>
      have starred : newline ∉ formatHex 3 address ++ ascii ": " ++ printWords words ++
          ascii "*" := by
        rw [List.mem_append, not_or]
        exact ⟨body, by decide⟩
      have text : formatHex 3 address ++ ascii ": " ++ printWords words ++
          (if true = true then ascii "*" ++ [newline] else []) ++ newline :: more =
          (formatHex 3 address ++ ascii ": " ++ printWords words ++ ascii "*") ++
            newline :: ([] ++ newline :: more) := by
        simp
      have empty : readDumpLine ([] ++ [newline]) = none := rfl
      rw [lineEnd, if_pos rfl, ← List.append_assoc] at line
      rw [text, getlines_line starred, List.filterMap_cons_some line,
        getlines_line List.not_mem_nil, List.filterMap_cons_none empty]

theorem readDump_print (entries : List (Entry (List Word))) :
    readDump (entries.flatMap fun entry => printEntry entry ++ [newline]) = entries := by
  induction entries with
  | nil => rfl
  | cons entry rest ih =>
      rw [List.flatMap_cons, List.append_assoc, List.singleton_append, readDump_cons, ih]

/-! ## The loop of the dump -/

def linesFrom (memory : Memory) (wordsperline : Nat) : Nat → Nat → List (List Word)
  | 0, _ => []
  | count + 1, address =>
      buildLine memory wordsperline address ::
        linesFrom memory wordsperline count (address + wordsperline)

/-- The loop prints the runs of equal lines: what it has printed is the text of the
closed runs and of the open one. -/
theorem dumpLines_eq {memory : Memory} {wordsperline count fuel address : Nat} {loop : DumpLoop}
    {last : Entry (List Word)} {front : Text} (positive : 0 < wordsperline)
    (whole : address + count * wordsperline = memSize) (enough : count ≤ fuel)
    (prevLine : loop.prevLine = last.value) (star : loop.star = last.star)
    (printed : loop.printed = front ++ printEntry last) :
    (dumpLines memory wordsperline fuel address loop).printed ++ [newline] =
      front ++ (runs (4 * wordsperline) (4 * address) last
        (linesFrom memory wordsperline count address)).flatMap fun entry =>
          printEntry entry ++ [newline] := by
  induction count generalizing fuel address loop last front with
  | zero =>
      have stopped : dumpLines memory wordsperline fuel address loop = loop := by
        cases fuel with
        | zero => rfl
        | succ fuel => exact if_neg (by omega)
      rw [stopped, linesFrom, runs, printed, List.append_assoc, List.flatMap_singleton]
  | succ count ih =>
      obtain ⟨fuel, rfl⟩ := Nat.exists_eq_add_of_le' (Nat.le_trans (Nat.le_add_left 1 _) enough)
      rw [Nat.succ_mul] at whole
      have inside : address < memSize := by omega
      have next : 4 * address + 4 * wordsperline = 4 * (address + wordsperline) := by omega
      have later : address + wordsperline + count * wordsperline = memSize := by omega
      rw [dumpLines, if_pos inside, linesFrom, runs, next]
      unfold dumpStep areEqual
      dsimp only
      rw [prevLine]
      by_cases same : last.value = buildLine memory wordsperline address
      · rw [if_pos (decide_eq_true same), if_pos same]
        refine ih later (Nat.le_of_succ_le_succ enough) same.symm rfl ?_
        dsimp only
        rw [printed, star]
        unfold printEntry
        cases last.star with
        | false => simp
        | true => rfl
      · rw [if_neg (by rw [decide_eq_true_eq]; exact same), if_neg same, List.flatMap_cons,
          ← List.append_assoc]
        refine ih later (Nat.le_of_succ_le_succ enough) rfl rfl ?_
        dsimp only
        rw [printed, dumpLine, Nat.mul_comm address 4]
        simp [printEntry, printWords, List.append_assoc]

theorem dumpMem_eq (memory : Memory) {wordsperline count : Nat} (positive : 0 < wordsperline)
    (whole : (count + 1) * wordsperline = memSize) :
    dumpMem memory wordsperline =
      (runs (4 * wordsperline) (4 * wordsperline) ⟨0, buildLine memory wordsperline 0, false⟩
        (linesFrom memory wordsperline count wordsperline)).flatMap fun entry =>
          printEntry entry ++ [newline] := by
  have later : wordsperline + count * wordsperline = memSize := by
    rw [Nat.add_comm, ← Nat.succ_mul]
    exact whole
  have enough : count ≤ memSize := by
    have bound := Nat.le_mul_of_pos_right count positive
    omega
  have first : dumpLine (buildLine memory wordsperline 0) 0 =
      [] ++ printEntry ⟨0, buildLine memory wordsperline 0, false⟩ := by
    simp [dumpLine, printEntry, printWords]
  unfold dumpMem
  exact @dumpLines_eq memory wordsperline count memSize wordsperline
    ⟨buildLine memory wordsperline 0, false, dumpLine (buildLine memory wordsperline 0) 0⟩
    ⟨0, buildLine memory wordsperline 0, false⟩ [] positive later enough rfl rfl first

/-! ## All of memory -/

@[simp] theorem length_buildLine (memory : Memory) (wordsperline : Nat) (address : Int) :
    (buildLine memory wordsperline address).length = wordsperline := by
  simp [buildLine]

theorem length_linesFrom (memory : Memory) (wordsperline count address : Nat) :
    (linesFrom memory wordsperline count address).length = count := by
  induction count generalizing address with
  | zero => rfl
  | succ count ih => rw [linesFrom, List.length_cons, ih]

theorem length_of_mem_linesFrom {memory : Memory} {wordsperline count address : Nat}
    {line : List Word} (member : line ∈ linesFrom memory wordsperline count address) :
    line.length = wordsperline := by
  induction count generalizing address with
  | zero => exact nomatch member
  | succ count ih =>
      rcases List.mem_cons.mp member with rfl | member
      · exact length_buildLine memory wordsperline address
      · exact ih member

def wordAt (memory : Memory) (index : Nat) : Word := (getWord memory ((index : Int) * 4)).1

theorem flatten_linesFrom (memory : Memory) (wordsperline count address : Nat) :
    (linesFrom memory wordsperline count address).flatten =
      (List.range' address (count * wordsperline)).map (wordAt memory) := by
  induction count generalizing address with
  | zero => simp [linesFrom]
  | succ count ih =>
      have line : buildLine memory wordsperline address =
          (List.range' address wordsperline).map (wordAt memory) := by
        rw [List.range'_eq_map_range, List.map_map]
        refine List.map_congr_left fun i _ => ?_
        simp [wordAt]
      rw [linesFrom, List.flatten_cons, ih, line, Nat.succ_mul, Nat.add_comm (count * wordsperline),
        ← List.map_append, List.range'_append_1]

theorem map_wordAt (memory : Memory) :
    (List.range' 0 memSize).map (wordAt memory) = List.ofFn memory := by
  have sameLength : ((List.range' 0 memSize).map (wordAt memory)).length =
      (List.ofFn memory).length := by
    rw [List.length_map, List.length_range', List.length_ofFn]
  refine List.ext_getElem sameLength fun n first second => ?_
  have inside : n < memSize := by rwa [List.length_ofFn] at second
  have address : ((n : Int) * 4) = (4 * n : Nat) := by omega
  rw [List.getElem_map, List.getElem_range', List.getElem_ofFn, Nat.zero_add, Nat.one_mul, wordAt,
    address, getWord_inRange memory inside]

/-- For every contents of memory and every line length that divides it, the text of
the dump expands to the words of memory. -/
theorem expandDump_dumpMem (memory : Memory) {wordsperline count : Nat}
    (positive : 0 < wordsperline) (whole : (count + 1) * wordsperline = memSize) :
    expandDump (dumpMem memory wordsperline) = some (List.ofFn memory) := by
  have sized : ∀ line ∈ linesFrom memory wordsperline (count + 1) 0,
      lineSize line = 4 * wordsperline := fun line member =>
    congrArg (4 * ·) (length_of_mem_linesFrom member)
  have lines : linesFrom memory wordsperline (count + 1) 0 =
      buildLine memory wordsperline 0 :: linesFrom memory wordsperline count wordsperline := by
    rw [linesFrom, Nat.zero_add]
    rfl
  have total : (linesFrom memory wordsperline (count + 1) 0).length * (4 * wordsperline) =
      65536 := by
    rw [length_linesFrom, Nat.mul_left_comm, whole]
    rfl
  rw [lines] at sized total
  have read := expand_runs_start (by omega) sized
  rw [total] at read
  rw [expandDump, dumpMem_eq memory positive whole, readDump_print, read, ← lines,
    Option.map_some, flatten_linesFrom, whole, map_wordAt]

/-- For every contents of memory: both dumps expand to its 16384 words, so two
different memories never print the same text. -/
theorem dump_lossless :
    (∀ memory : Memory, expandDump (dumpMemory memory) = some (List.ofFn memory) ∧
        expandDump (dumpMemoryImage memory) = some (List.ofFn memory)) ∧
      Function.Injective dumpMemory ∧ Function.Injective dumpMemoryImage := by
  have wide (memory : Memory) : expandDump (dumpMemory memory) = some (List.ofFn memory) :=
    @expandDump_dumpMem memory 8 2047 (by decide) rfl
  have narrow (memory : Memory) : expandDump (dumpMemoryImage memory) = some (List.ofFn memory) :=
    @expandDump_dumpMem memory 1 16383 (by decide) rfl
  refine ⟨fun memory => ⟨wide memory, narrow memory⟩, fun first second same => ?_,
    fun first second same => ?_⟩
  · exact List.ofFn_injective (Option.some.inj (by rw [← wide first, same, wide second]))
  · exact List.ofFn_injective (Option.some.inj (by rw [← narrow first, same, narrow second]))

end Yess
