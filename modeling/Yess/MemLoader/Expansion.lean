import Yess.MemLoader.Lines

/-!
# Expanding a memory image

What an accepted image stores: the word of each line at its address, and behind a
starred line the same word again up to the address of the next line.  The words
are stored one after another from address zero to the address of the last line.
-/

namespace Yess.MemLoader

open Lib.CString Lib.ByteStore

/-! ## Words one after another -/

/-- Store words from an address on; `none` when one of them cannot be stored. -/
def putWords : Memory → Int → List Word → Option Memory
  | memory, _, [] => some memory
  | memory, address, word :: rest =>
      let put := putWord memory address word
      if put.2 then none else putWords put.1 (address + wordSize) rest

def overlay (memory : Memory) (index : Nat) (words : List Word) : Memory := fun place =>
  if place.val < index then memory place
  else (words[place.val - index]?).getD (memory place)

@[simp] theorem overlay_nil (memory : Memory) (index : Nat) : overlay memory index [] = memory := by
  funext place
  simp [overlay]

theorem overlay_singleton (memory : Memory) {index : Nat} (inside : index < memSize)
    (word : Word) :
    overlay memory index [word] = Function.update memory ⟨index, inside⟩ word := by
  funext place
  unfold overlay
  rcases Nat.lt_trichotomy place.val index with below | same | beyond
  · have other : place ≠ ⟨index, inside⟩ := Fin.ne_of_lt below
    rw [if_pos below, Function.update_of_ne other]
  · obtain rfl : place = ⟨index, inside⟩ := Fin.ext same
    simp
  · have other : place ≠ ⟨index, inside⟩ := Fin.ne_of_gt beyond
    have past : [word].length ≤ place.val - index := by
      rw [List.length_singleton]
      omega
    rw [if_neg (Nat.not_lt.mpr (Nat.le_of_lt beyond)), List.getElem?_eq_none past,
      Function.update_of_ne other]
    rfl

theorem overlay_append (memory : Memory) (index : Nat) (words more : List Word) :
    overlay (overlay memory index words) (index + words.length) more =
      overlay memory index (words ++ more) := by
  funext place
  unfold overlay
  by_cases below : place.val < index
  · rw [if_pos below, if_pos (by omega), if_pos below]
  · simp only [below, if_false]
    by_cases first : place.val - index < words.length
    · rw [if_pos (by omega), List.getElem?_append_left first]
    · rw [if_neg (by omega), List.getElem?_append_right (Nat.not_lt.mp first),
        List.getElem?_eq_none (Nat.not_lt.mp first), Nat.sub_sub]
      rfl

theorem putWords_eq {memory : Memory} {index : Nat} {words : List Word}
    (inside : index + words.length ≤ memSize) :
    putWords memory (4 * index : Nat) words = some (overlay memory index words) := by
  induction words generalizing memory index with
  | nil => rw [putWords, overlay_nil]
  | cons word rest ih =>
      rw [List.length_cons] at inside
      have small : index < memSize := by omega
      have next : ((4 * index : Nat) : Int) + wordSize = (4 * (index + 1) : Nat) := by
        simp only [wordSize]
        omega
      have join : overlay (overlay memory index [word]) (index + 1) rest =
          overlay memory index (word :: rest) := overlay_append memory index [word] rest
      rw [putWords, putWord_inRange memory small]
      dsimp only
      rw [if_neg Bool.false_ne_true, next, ih (by omega), ← overlay_singleton memory small, join]

theorem getWord_overlay {memory : Memory} {index place : Nat} {words : List Word}
    (inside : place < memSize) (lower : index ≤ place) {word : Word}
    (isWord : words[place - index]? = some word) :
    getWord (overlay memory index words) (4 * place : Nat) = (word, false) := by
  rw [getWord_inRange _ inside, overlay, if_neg (Nat.not_lt.mpr lower), isWord]
  rfl

theorem getWord_overlay_behind {memory : Memory} {index place : Nat} {words : List Word}
    (inside : place < memSize) (behind : index + words.length ≤ place) :
    getWord (overlay memory index words) (4 * place : Nat) = (memory ⟨place, inside⟩, false) := by
  have past : words.length ≤ place - index := by omega
  have above : ¬ place < index := by omega
  rw [getWord_inRange _ inside, overlay, if_neg above, List.getElem?_eq_none past]
  rfl

/-! ## One line -/

def lineIndex (line : Text) : Nat := hexValue (columns line 0 4) / 4

/-- The line may follow when the next word to store has index `next`: behind a star
some words may be left out, else none. -/
structure Follows (star : Bool) (next : Nat) (line : Text) : Prop where
  address : lineAddress line = (4 * lineIndex line : Nat)
  notBefore : next ≤ lineIndex line
  inside : lineIndex line < memSize
  plain : star = false → lineIndex line = next

/-- What the fields of the previous line say of the next word to store. -/
structure Ready (record : MemoryRecord) (next : Nat) : Prop where
  start : record.prevaddress = -1 → next = 0 ∧ record.prevstarline = false
  behind : record.prevaddress ≠ -1 → record.prevaddress + 4 = (4 * next : Nat) ∧ 1 ≤ next

theorem ValidLine.follows {record : MemoryRecord} {line : Text} {next : Nat}
    (valid : ValidLine record line) (ready : Ready record next) :
    Follows record.prevstarline next line := by
  have inOrder := valid.inOrder
  have bound := hexValue_lt (columns line 0 4)
  rw [length_columns] at bound
  unfold addressInOrder at inOrder
  have index : lineIndex line = hexValue (columns line 0 4) / 4 := rfl
  have address : lineAddress line = hexValue (columns line 0 4) := rfl
  by_cases first : record.prevaddress = -1
  · obtain ⟨rfl, noStar⟩ := ready.start first
    rw [if_pos first, decide_eq_true_eq] at inOrder
    have zero : hexValue (columns line 0 4) = 0 := by omega
    rw [zero] at index address
    exact ⟨by rw [address, index], Nat.zero_le _, by rw [index]; decide, fun _ => index⟩
  · obtain ⟨next, positive⟩ := ready.behind first
    rw [if_neg first] at inOrder
    cases star : record.prevstarline with
    | true =>
        rw [star, if_pos rfl, decide_eq_true_eq] at inOrder
        simp only [wordSize] at inOrder
        exact ⟨by omega, by omega, by simp only [memSize]; omega, nofun⟩
    | false =>
        rw [star, if_neg Bool.false_ne_true, decide_eq_true_eq] at inOrder
        simp only [wordSize] at inOrder
        exact ⟨by omega, by omega, by simp only [memSize]; omega, fun _ => by omega⟩

/-- The words of the gap behind a starred line are all stored. -/
theorem putrepeatdata_eq {data : Word} {last index fuel : Nat} {memory : Memory}
    (ordered : index ≤ last) (inside : last ≤ memSize) (enough : last - index ≤ fuel) :
    putrepeatdata data (4 * last : Nat) fuel (4 * index : Nat) memory =
      (overlay memory index (List.replicate (last - index) data), true) := by
  induction fuel generalizing index memory with
  | zero =>
      rw [putrepeatdata, Nat.le_zero.mp enough, List.replicate_zero, overlay_nil]
  | succ fuel ih =>
      rw [putrepeatdata]
      rcases Nat.lt_or_eq_of_le ordered with below | rfl
      · have small : index < memSize := by omega
        have next : ((4 * index : Nat) : Int) + wordSize = (4 * (index + 1) : Nat) := by
          simp only [wordSize]
          omega
        have gap : last - index = last - (index + 1) + 1 := by omega
        have join := overlay_append memory index [data]
          (List.replicate (last - (index + 1)) data)
        rw [if_pos (by omega), putWord_inRange memory small]
        dsimp only
        rw [if_neg Bool.false_ne_true, next, ih below (by omega), ← overlay_singleton memory small,
          gap, List.replicate_succ]
        exact congrArg (fun after => (after, true)) join
      · rw [if_neg (Int.lt_irrefl _), Nat.sub_self, List.replicate_zero, overlay_nil]

/-- The words that one line adds: the gap before it, and its own. -/
def lineWords (prevdata : Word) (next : Nat) (line : Text) : List Word :=
  List.replicate (lineIndex line - next) prevdata ++ [lineData line]

theorem length_lineWords {prevdata : Word} {next : Nat} {line : Text}
    (notBefore : next ≤ lineIndex line) :
    next + (lineWords prevdata next line).length = lineIndex line + 1 := by
  rw [lineWords, List.length_append, List.length_replicate, List.length_singleton]
  omega

theorem loadLines_cons {memory : Memory} {record : MemoryRecord} {line : Text} {next : Nat}
    {found : Int × Bool} (ready : Ready record next)
    (accepted : validateline record line = some found) (rest : List Text) :
    Follows record.prevstarline next line ∧
      Ready ⟨record.lineno + 1, lineAddress line, lineData line, lineStar line⟩
        (lineIndex line + 1) ∧
      loadLines memory record (line :: rest) =
        loadLines (overlay memory next (lineWords record.prevdata next line))
          ⟨record.lineno + 1, lineAddress line, lineData line, lineStar line⟩ rest := by
  obtain ⟨address, star⟩ := found
  obtain ⟨valid, rfl, rfl⟩ := (validateline_iff record line address star).mp accepted
  have follows := valid.follows ready
  have inside := follows.inside
  have notBefore := follows.notBefore
  refine ⟨follows, ⟨fun isStart => ?_, fun _ => ⟨?_, Nat.succ_pos _⟩⟩, ?_⟩
  · dsimp only at isStart
    rw [follows.address] at isStart
    omega
  · rw [follows.address]
    dsimp only
    omega
  · have repeated : (if record.prevstarline then
        putrepeatdata record.prevdata (lineAddress line) memSize (record.prevaddress + wordSize)
          memory
        else (memory, true)) =
        (overlay memory next (List.replicate (lineIndex line - next) record.prevdata), true) := by
      cases isStar : record.prevstarline with
      | true =>
          have notStart : record.prevaddress ≠ -1 := by
            intro isStart
            rw [(ready.start isStart).2] at isStar
            exact Bool.false_ne_true isStar
          have start := (ready.behind notStart).1
          rw [if_pos rfl, follows.address, show record.prevaddress + wordSize = _ from start]
          exact putrepeatdata_eq notBefore (Nat.le_of_lt inside) (by omega)
      | false =>
          rw [if_neg Bool.false_ne_true, follows.plain isStar, Nat.sub_self,
            List.replicate_zero, overlay_nil]
    have length : next + (List.replicate (lineIndex line - next) record.prevdata).length =
        lineIndex line := by
      rw [List.length_replicate]
      omega
    have join := overlay_append memory next
      (List.replicate (lineIndex line - next) record.prevdata) [lineData line]
    rw [length, overlay_singleton _ inside] at join
    conv_lhs => unfold loadLines
    rw [accepted]
    dsimp only
    rw [readdata_eq valid.data]
    dsimp only
    rw [repeated, follows.address]
    dsimp only
    rw [putWord_inRange _ inside, if_neg Bool.false_ne_true, if_neg (by decide), join]
    rfl

/-! ## All lines -/

def InSequence : Bool → Nat → List Text → Prop
  | _, _, [] => True
  | star, next, line :: rest =>
      Follows star next line ∧ InSequence (lineStar line) (lineIndex line + 1) rest

/-- The words that the lines add, one after another. -/
def expansion : Word → Nat → List Text → List Word
  | _, _, [] => []
  | prevdata, next, line :: rest =>
      lineWords prevdata next line ++ expansion (lineData line) (lineIndex line + 1) rest

/-- Accepted lines are in sequence, and memory is overlaid with their words. -/
theorem loadLines_accepted {memory : Memory} {record : MemoryRecord} {lines : List Text}
    {next : Nat} (ready : Ready record next)
    (accepted : (loadLines memory record lines).result = true) :
    InSequence record.prevstarline next lines ∧
      (loadLines memory record lines).memory =
        overlay memory next (expansion record.prevdata next lines) := by
  induction lines generalizing memory record next with
  | nil => exact ⟨trivial, (overlay_nil memory next).symm⟩
  | cons line rest ih =>
      cases found : validateline record line with
      | none =>
          rw [loadLines_rejected found] at accepted
          exact nomatch accepted
      | some result =>
          obtain ⟨follows, nextReady, step⟩ := @loadLines_cons memory _ _ _ _ ready found rest
          rw [step] at accepted ⊢
          obtain ⟨later, stored⟩ := ih nextReady accepted
          refine ⟨⟨follows, later⟩, ?_⟩
          rw [stored, expansion, ← overlay_append, length_lineWords follows.notBefore]

/-- An image fails only at a line that `validateline` rejects: no word of an accepted
line is refused by memory. -/
theorem exists_rejected {memory : Memory} {record : MemoryRecord} {lines : List Text} {next : Nat}
    (ready : Ready record next) (failed : (loadLines memory record lines).result = false) :
    ∃ before line after reached, lines = before ++ line :: after ∧
      validateline reached line = none ∧
      reached.lineno = record.lineno + BitVec.ofNat 32 before.length ∧
      loadLines memory record lines =
        ⟨false, (loadLines memory record before).memory,
          erroneousLine (record.lineno + BitVec.ofNat 32 before.length) line⟩ := by
  induction lines generalizing memory record next with
  | nil => exact nomatch failed
  | cons line rest ih =>
      cases found : validateline record line with
      | none =>
          have count : record.lineno + BitVec.ofNat 32 ([] : List Text).length = record.lineno :=
            BitVec.add_zero record.lineno
          refine ⟨[], line, rest, record, rfl, found, count.symm, ?_⟩
          rw [count]
          exact loadLines_rejected found rest
      | some result =>
          obtain ⟨-, nextReady, step⟩ := @loadLines_cons memory _ _ _ _ ready found rest
          rw [step] at failed
          obtain ⟨before, bad, after, reached, rfl, rejected, lineno, leaves⟩ := ih nextReady failed
          have stepBefore := (@loadLines_cons memory _ _ _ _ ready found before).2.2
          have count : record.lineno + 1 + BitVec.ofNat 32 before.length =
              record.lineno + BitVec.ofNat 32 (line :: before).length := by
            rw [List.length_cons, Nat.add_comm before.length, BitVec.ofNat_add,
              ← BitVec.add_assoc]
            rfl
          refine ⟨line :: before, bad, after, reached, rfl, rejected, ?_, ?_⟩
          · rw [lineno, count]
          · rw [step, leaves, stepBefore, count]

theorem expansion_append {prevdata : Word} {star : Bool} {next : Nat} {before : List Text}
    {line : Text} {rest : List Text} (inSequence : InSequence star next (before ++ line :: rest)) :
    ∃ words, expansion prevdata next (before ++ line :: rest) =
        words ++ lineData line :: expansion (lineData line) (lineIndex line + 1) rest ∧
      next + words.length = lineIndex line ∧ lineIndex line < memSize ∧
      lineAddress line = (4 * lineIndex line : Nat) ∧
      InSequence (lineStar line) (lineIndex line + 1) rest := by
  induction before generalizing prevdata star next with
  | nil =>
      obtain ⟨follows, later⟩ := inSequence
      have notBefore := follows.notBefore
      refine ⟨List.replicate (lineIndex line - next) prevdata, ?_, ?_, follows.inside,
        follows.address, later⟩
      · rw [List.nil_append, expansion, lineWords, List.append_assoc]
        rfl
      · rw [List.length_replicate]
        omega
  | cons first others ih =>
      obtain ⟨follows, later⟩ := inSequence
      obtain ⟨words, split, length, inside, address, behind⟩ :=
        @ih (lineData first) _ _ later
      refine ⟨lineWords prevdata next first ++ words, ?_, ?_, inside, address, behind⟩
      · rw [List.cons_append, expansion, split, List.append_assoc]
      · rw [List.length_append, ← Nat.add_assoc, length_lineWords follows.notBefore, length]

theorem InSequence.increasing {star : Bool} {next : Nat} {lines : List Text}
    (inSequence : InSequence star next lines) :
    (∀ line ∈ lines, (4 * next : Nat) ≤ lineAddress line) ∧
      (lines.map lineAddress).Pairwise (· < ·) := by
  induction lines generalizing star next with
  | nil => exact ⟨nofun, List.Pairwise.nil⟩
  | cons line rest ih =>
      obtain ⟨follows, later⟩ := inSequence
      obtain ⟨above, increasing⟩ := ih later
      have address := follows.address
      have notBefore := follows.notBefore
      refine ⟨fun other member => ?_, ?_⟩
      · rcases List.mem_cons.mp member with rfl | member
        · omega
        · have behind := above other member
          omega
      · rw [List.map_cons, List.pairwise_cons]
        refine ⟨fun other member => ?_, increasing⟩
        obtain ⟨later, isLine, rfl⟩ := List.mem_map.mp member
        have behind := above later isLine
        omega

/-- What an accepted image does to memory: its addresses count up from zero in steps
of a word, or of more behind a star; the words at the addresses are the ones of the
lines, and those of a gap the one of the line before it; and `putWord` stores these
words one after another, from address zero to the address of the last line. -/
structure Expanded (lines : List Text) (before after : Memory) : Prop where
  increasing : (lines.map lineAddress).Pairwise (· < ·)
  aligned : ∀ line ∈ lines, InRange 65536 (lineAddress line) ∧ lineAddress line % 4 = 0
  first : ∀ line, lines.head? = some line → lineAddress line = 0
  record : ∀ line ∈ lines, getWord after (lineAddress line) = (lineData line, false)
  filled : ∀ front line second rest, lines = front ++ line :: second :: rest →
    lineStar line = true → ∀ address, address % 4 = 0 → lineAddress line < address →
      address < lineAddress second → getWord after address = (lineData line, false)
  adjacent : ∀ front line second rest, lines = front ++ line :: second :: rest →
    lineStar line = false → lineAddress second = lineAddress line + 4
  written : putWords before 0 (expansion 0 0 lines) = some after
  last : ∀ front line, lines = front ++ [line] →
    (4 * (expansion 0 0 lines).length : Nat) = lineAddress line + 4

theorem length_expansion {prevdata : Word} {star : Bool} {front : List Text} {line : Text}
    (inSequence : InSequence star 0 (front ++ [line])) :
    (expansion prevdata 0 (front ++ [line])).length = lineIndex line + 1 ∧
      lineIndex line < memSize ∧ lineAddress line = (4 * lineIndex line : Nat) := by
  obtain ⟨words, split, length, inside, address, -⟩ :=
    @expansion_append prevdata _ _ _ _ _ inSequence
  refine ⟨?_, inside, address⟩
  rw [split, List.length_append, expansion, List.length_singleton]
  omega

theorem getWord_expansion_record (memory : Memory) {star : Bool} {front : List Text}
    {line : Text} {rest : List Text} (inSequence : InSequence star 0 (front ++ line :: rest)) :
    getWord (overlay memory 0 (expansion 0 0 (front ++ line :: rest))) (lineAddress line) =
      (lineData line, false) := by
  obtain ⟨words, whole, length, inside, address, -⟩ := @expansion_append 0 _ _ _ _ _ inSequence
  rw [address]
  refine getWord_overlay inside (Nat.zero_le _) ?_
  rw [whole, ← length, Nat.zero_add, Nat.sub_zero, List.getElem?_append_right (Nat.le_refl _),
    Nat.sub_self]
  rfl

/-- Between two lines that follow each other stands the word of the first. -/
theorem getWord_expansion_filled (memory : Memory) {star : Bool} {front : List Text}
    {line second : Text} {rest : List Text}
    (inSequence : InSequence star 0 (front ++ line :: second :: rest)) {address : Int}
    (aligned : address % 4 = 0) (above : lineAddress line < address)
    (below : address < lineAddress second) :
    getWord (overlay memory 0 (expansion 0 0 (front ++ line :: second :: rest))) address =
      (lineData line, false) := by
  obtain ⟨words, whole, length, inside, lineAt, behind⟩ :=
    @expansion_append 0 _ _ _ _ _ inSequence
  have secondInside := behind.1.inside
  have secondAt := behind.1.address
  obtain ⟨place, rfl⟩ : ∃ place : Nat, address = (4 * place : Nat) :=
    ⟨(address / 4).toNat, by omega⟩
  have gap : place - (lineIndex line + 1) < lineIndex second - (lineIndex line + 1) := by omega
  refine getWord_overlay (by omega) (Nat.zero_le _) ?_
  have past : (words ++ [lineData line]).length ≤ place - 0 := by
    rw [List.length_append, List.length_singleton]
    omega
  have offset : place - 0 - (words ++ [lineData line]).length = place - (lineIndex line + 1) := by
    rw [List.length_append, List.length_singleton]
    omega
  rw [whole, ← List.singleton_append, ← List.append_assoc, List.getElem?_append_right past,
    offset, expansion, lineWords, List.append_assoc,
    List.getElem?_append_left (by rwa [List.length_replicate]), List.getElem?_replicate,
    if_pos gap]

theorem expanded_overlay {lines : List Text} (memory : Memory)
    (inSequence : InSequence false 0 lines) :
    Expanded lines memory (overlay memory 0 (expansion 0 0 lines)) := by
  constructor
  · exact inSequence.increasing.2
  · intro line member
    obtain ⟨before, rest, split⟩ := List.append_of_mem member
    obtain ⟨words, -, -, inside, address, -⟩ :=
      @expansion_append 0 _ _ _ _ _ (split ▸ inSequence)
    simp only [memSize] at inside
    unfold InRange
    omega
  · intro line isHead
    obtain ⟨rest, rfl⟩ := List.head?_eq_some_iff.mp isHead
    rw [inSequence.1.address, inSequence.1.plain rfl]
    rfl
  · intro line member
    obtain ⟨before, rest, rfl⟩ := List.append_of_mem member
    exact getWord_expansion_record memory inSequence
  · rintro front line second rest rfl _ address aligned above below
    exact getWord_expansion_filled memory inSequence aligned above below
  · rintro front line second rest rfl noStar
    obtain ⟨-, -, -, -, lineAt, behind⟩ := @expansion_append 0 _ _ _ _ _ inSequence
    have secondAt := behind.1.address
    have next := behind.1.plain noStar
    omega
  · refine @putWords_eq memory 0 _ ?_
    rcases List.eq_nil_or_concat' lines with rfl | ⟨front, line, rfl⟩
    · exact Nat.zero_le _
    · obtain ⟨length, inside, -⟩ := @length_expansion 0 _ _ _ inSequence
      omega
  · intro front line split
    obtain ⟨length, -, address⟩ := @length_expansion 0 _ _ _ (split ▸ inSequence)
    rw [split, length, address]
    omega

theorem ready_start : Ready ⟨1, -1, 0, false⟩ 0 :=
  ⟨fun _ => ⟨rfl, rfl⟩, fun notStart => absurd rfl notStart⟩

/-- The lines of an accepted image are in sequence, and memory is overlaid with their words. -/
theorem loadMemImage_accepted {fileName file : Text} {memory : Memory}
    (accepted : (loadMemImage fileName (some file) memory).result = true) :
    InSequence false 0 (getlines file) ∧
      (loadMemImage fileName (some file) memory).memory =
        overlay memory 0 (expansion 0 0 (getlines file)) := by
  unfold loadMemImage at accepted ⊢
  by_cases validName : validatememfilename fileName = true
  · rw [validName, Bool.not_true, if_neg Bool.false_ne_true] at accepted ⊢
    exact loadLines_accepted ready_start accepted
  · rw [if_pos (by rw [Bool.eq_false_iff.mpr validName]; rfl)] at accepted
    exact nomatch accepted

/-- For every image that is accepted, from any contents of memory: its lines expand
as their addresses, words and stars say, up to the last one. -/
theorem loadMemImage_expanded {fileName file : Text} {memory : Memory}
    (accepted : (loadMemImage fileName (some file) memory).result = true) :
    Expanded (getlines file) memory (loadMemImage fileName (some file) memory).memory := by
  obtain ⟨inSequence, stored⟩ := loadMemImage_accepted accepted
  rw [stored]
  exact expanded_overlay memory inSequence

/-- Three words equal to one, and the word behind them. -/
def repeatedOne : Text :=
  ascii "0000: 00000001 *" ++ [newline] ++ ascii "000c: 00000002" ++ [space, newline]

/-- The expansion of this image. -/
theorem loadMemImage_expanded_repeatedOne :
    Expanded (getlines repeatedOne) initMemory
      (loadMemImage (ascii "a.mem") (some repeatedOne) initMemory).memory :=
  loadMemImage_expanded (by decide +kernel)

/-! ## A star on the last line -/

/-- Every word from the address of the line to the end of memory is the one of the line. -/
def CoversRest (memory : Memory) (line : Text) : Prop :=
  ∀ address, InRange 65536 address → address % 4 = 0 → lineAddress line ≤ address →
    getWord memory address = (lineData line, false)

theorem Expanded.behind {before after : Memory} {front : List Text} {line : Text}
    (expanded : Expanded (front ++ [line]) before after) {address : Int}
    (inside : InRange 65536 address) (aligned : address % 4 = 0)
    (beyond : lineAddress line < address) : getWord after address = getWord before address := by
  have stored := expanded.written
  have last := expanded.last front line rfl
  obtain ⟨lineInside, lineAligned⟩ := expanded.aligned line (by simp)
  obtain ⟨place, small, rfl⟩ := exists_wordIndex ⟨inside, aligned⟩
  unfold InRange at lineInside
  have fits : 0 + (expansion 0 0 (front ++ [line])).length ≤ memSize := by
    simp only [memSize]
    omega
  rw [show (0 : Int) = (4 * 0 : Nat) by rfl, putWords_eq fits] at stored
  obtain rfl := Option.some.inj stored
  rw [getWord_overlay_behind small (by omega), getWord_inRange before small]

/-- For every accepted image whose last line has a star, loaded into zeroed memory:
the word of that line covers the rest of memory if and only if it is zero or the
line is at the last word. -/
theorem coversRest_iff {fileName file : Text} {front : List Text} {line : Text}
    (accepted : (loadMemImage fileName (some file) initMemory).result = true)
    (lines : getlines file = front ++ [line]) (_star : lineStar line = true) :
    CoversRest (loadMemImage fileName (some file) initMemory).memory line ↔
      lineData line = 0 ∨ lineAddress line = 0xfffc := by
  obtain ⟨inSequence, stored⟩ := loadMemImage_accepted accepted
  have expanded := expanded_overlay initMemory inSequence
  rw [← stored, lines] at expanded
  obtain ⟨inside, aligned⟩ := expanded.aligned line (by simp)
  have own := expanded.record line (by simp)
  have zeros {address : Int} (isInside : InRange 65536 address) (isAligned : address % 4 = 0) :
      getWord initMemory address = (0, false) := by
    obtain ⟨place, small, rfl⟩ := exists_wordIndex ⟨isInside, isAligned⟩
    exact getWord_inRange initMemory small
  unfold InRange at inside
  constructor
  · intro covers
    by_cases last : lineAddress line = 0xfffc
    · exact Or.inr last
    · have next : InRange 65536 (lineAddress line + 4) := by
        unfold InRange
        omega
      have word := covers (lineAddress line + 4) next (by omega) (by omega)
      rw [expanded.behind next (by omega) (by omega), zeros next (by omega)] at word
      exact Or.inl (congrArg Prod.fst word).symm
  · intro condition address isInside isAligned notBefore
    rcases Int.lt_or_eq_of_le notBefore with beyond | rfl
    · rcases condition with zero | last
      · rw [expanded.behind isInside isAligned beyond, zeros isInside isAligned, zero]
      · unfold InRange at isInside
        omega
    · exact own

/-- A starred line and nothing behind it. -/
def starredLast : Text := ascii "0000: 00000001 *" ++ [newline]

theorem getlines_starredLast : getlines starredLast = [] ++ [starredLast] := by decide

/-- The image is accepted, and the word behind its one line is still zero. -/
theorem not_coversRest_starredLast :
    (loadMemImage (ascii "a.mem") (some starredLast) initMemory).result = true ∧
      lineStar starredLast = true ∧
      ¬ CoversRest (loadMemImage (ascii "a.mem") (some starredLast) initMemory).memory
        starredLast := by
  refine ⟨by decide +kernel, by decide, fun covers => ?_⟩
  have word := covers 4 (by decide) (by decide) (by decide +kernel)
  exact absurd word (by decide +kernel)

/-- The iff at this image. -/
theorem coversRest_iff_starredLast :
    CoversRest (loadMemImage (ascii "a.mem") (some starredLast) initMemory).memory starredLast ↔
      lineData starredLast = 0 ∨ lineAddress starredLast = 0xfffc :=
  coversRest_iff (by decide +kernel) getlines_starredLast (by decide)

end Yess.MemLoader
