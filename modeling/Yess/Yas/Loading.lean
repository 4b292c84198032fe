import Yess.Isa.LoadMem
import Yess.Yas.ObjectCode

/-!
# Loading an assembled program

What the simulator has in its memory behind `load` of the assembler's file: the code
of every statement at its address, as the instruction that the statement names.
-/

namespace Yess.Yas

open Lib.ByteStore Lib.CString

/-! ## Instructions -/

def listedInstruction (icode : Icode) (ifun rA rB : BitVec 4) (constant : Word) :
    Option Instruction :=
  if listed : icode.nibble.toNat ≤ 12 then some ⟨icode, listed, ifun, rA, rB, constant⟩ else none

/-- The instruction of a statement.  The simulator has no `iaddl` and no `leave`. -/
def Statement.instruction (resolve : Text → Int) : Statement → Option Instruction
  | halt => listedInstruction .halt 0 0 0 0
  | nop => listedInstruction .nop 0 0 0 0
  | rrmovl condition rA rB =>
      listedInstruction .rrmovl (BitVec.ofNat 4 condition.val) (nibble rA) (nibble rB) 0
  | irmovl constant rB =>
      listedInstruction .irmovl 0 0xF (nibble rB) (constant.word resolve)
  | rmmovl rA address =>
      listedInstruction .rmmovl 0 (nibble rA) address.nibble (address.word resolve)
  | mrmovl address rA =>
      listedInstruction .mrmovl 0 (nibble rA) address.nibble (address.word resolve)
  | opl operation rA rB =>
      listedInstruction .opl (BitVec.ofNat 4 operation.val) (nibble rA) (nibble rB) 0
  | jxx condition target =>
      listedInstruction .jxx (BitVec.ofNat 4 condition.val) 0 0 (target.word resolve)
  | call target => listedInstruction .call 0 0 0 (target.word resolve)
  | ret => listedInstruction .ret 0 0 0 0
  | pushl rA => listedInstruction .pushl 0 (nibble rA) 0xF 0
  | popl rA => listedInstruction .popl 0 (nibble rA) 0xF 0
  | leave | iaddl _ _ | data _ _ => none

theorem instruction_bytes {st : Statement} {resolve : Text → Int} {i : Instruction}
    (isInstruction : st.instruction resolve = some i) : i.bytes = st.bytes resolve := by
  cases st <;> cases isInstruction <;> rfl

/-! ## Places -/

/-- The program goes on to higher addresses, and its lines start below `0x1000`. -/
def Forward : List SourceLine → Int → Prop
  | [], _ => True
  | l :: rest, bytepos =>
      bytepos ≤ l.place bytepos ∧ (l.tokens ≠ [] → l.place bytepos < 4096) ∧
        Forward rest (l.behind bytepos)

instance decidableForward :
    (program : List SourceLine) → (bytepos : Int) → Decidable (Forward program bytepos)
  | [], _ => isTrue trivial
  | l :: rest, bytepos =>
      have := decidableForward rest (l.behind bytepos)
      inferInstanceAs (Decidable (_ ∧ _ ∧ _))

theorem behind_eq (l : SourceLine) (resolve : Text → Int) (bytepos : Int) :
    l.behind bytepos = l.place bytepos + (l.bytes resolve).length := by
  rcases l.plain_or_statement with plain | ⟨st, body⟩
  · rw [plain.behind, plain.bytes]
    exact (Int.add_zero _).symm
  · rw [SourceLine.behind_statement body, row_bytes st resolve]
    simp [SourceLine.place, SourceLine.bytes, body]

theorem Forward.split {before after : List SourceLine} {bytepos : Int}
    (forward : Forward (before ++ after) bytepos) :
    bytepos ≤ behindAll before bytepos ∧ Forward after (behindAll before bytepos) := by
  induction before generalizing bytepos with
  | nil => exact ⟨Int.le_refl _, forward⟩
  | cons l rest ih =>
      obtain ⟨up, -, later⟩ := forward
      obtain ⟨le, tail⟩ := ih later
      have behind := behind_eq l (fun _ => 0) bytepos
      refine ⟨?_, tail⟩
      change bytepos ≤ behindAll rest (l.behind bytepos)
      omega

/-- A line is a comment without code, or its record has its address and its code. -/
theorem record_cases {l : SourceLine} (resolve : Text → Int) {bytepos : Int}
    (positive : 0 ≤ bytepos) (forward : Forward [l] bytepos) :
    (∃ r, l.record resolve bytepos = .comment r ∧ l.bytes resolve = []) ∨
      ∃ r, l.record resolve bytepos = .data r ∧ r.address = l.place bytepos ∧
        r.bytes = l.bytes resolve := by
  obtain ⟨up, below, -⟩ := forward
  unfold SourceLine.record
  by_cases noTokens : l.tokens = []
  · rw [if_pos noTokens]
    refine Or.inl ⟨_, rfl, ?_⟩
    rcases l.plain_or_statement with plain | ⟨st, body⟩
    · exact plain.bytes resolve
    · unfold SourceLine.tokens at noTokens
      rw [body] at noTokens
      exact absurd (List.append_eq_nil_iff.mp noTokens).2 (List.cons_ne_nil _ _)
  · rw [if_neg noTokens]
    have small := below noTokens
    have number : (BitVec.ofInt 32 (l.place bytepos)).toNat = (l.place bytepos).toNat := by
      rw [BitVec.toNat_ofInt]
      omega
    refine Or.inr ⟨_, rfl, ?_, ?_⟩
    · rw [number, dataRecord_address (by omega)]
      omega
    · exact dataRecord_bytes _ (l.length_bytes_le resolve) _

/-- A program that goes forward has its records in order. -/
theorem Forward.inOrder {program : List SourceLine} (resolve : Text → Int) {bytepos last : Int}
    (positive : 0 ≤ bytepos) (behindLast : last < bytepos) (forward : Forward program bytepos) :
    InOrder last (records resolve program bytepos) := by
  induction program generalizing bytepos last with
  | nil => trivial
  | cons l rest ih =>
      obtain ⟨up, below, later⟩ := forward
      have behind := behind_eq l resolve bytepos
      change (l.record resolve bytepos).Follows last ∧
        InOrder ((l.record resolve bytepos).lastByte last) (records resolve rest (l.behind bytepos))
      rcases record_cases resolve positive ⟨up, below, trivial⟩ with
        ⟨r, record, -⟩ | ⟨r, record, address, bytes⟩
      · rw [record]
        have before : last < l.behind bytepos := by omega
        exact ⟨trivial, ih (by omega) before later⟩
      · rw [record]
        refine ⟨?_, ih (by omega) ?_ later⟩
        · change last < r.address
          omega
        · rw [behind, ← bytes, ← address]
          unfold Record.lastByte
          by_cases empty : (Record.data r).bytes = []
          · rw [if_pos empty]
            omega
          · rw [if_neg empty]
            exact Int.sub_one_lt_of_le (Int.le_refl _)

/-- The records are those of the lines, each at the address where its line starts. -/
theorem mem_records {resolve : Text → Int} {program : List SourceLine} {bytepos : Int}
    {r : Record} :
    r ∈ records resolve program bytepos ↔
      ∃ before l after, program = before ++ l :: after ∧
        r = l.record resolve (behindAll before bytepos) := by
  induction program generalizing bytepos with
  | nil =>
      refine ⟨fun member => absurd member List.not_mem_nil, ?_⟩
      rintro ⟨before, l, after, split, -⟩
      exact absurd split.symm (by simp)
  | cons head rest ih =>
      constructor
      · intro member
        rcases List.mem_cons.mp member with rfl | member
        · exact ⟨[], head, rest, rfl, rfl⟩
        · obtain ⟨before, l, after, rfl, record⟩ := ih.mp member
          exact ⟨head :: before, l, after, rfl, record⟩
      · rintro ⟨before, l, after, split, record⟩
        cases before with
        | nil =>
            obtain ⟨rfl, rfl⟩ := List.cons.inj split
            exact List.mem_cons.mpr (Or.inl record)
        | cons first others =>
            obtain ⟨rfl, rfl⟩ := List.cons.inj split
            exact List.mem_cons.mpr (Or.inr (ih.mpr ⟨others, l, after, rfl, record⟩))

/-! ## Memory -/

/-- The code of a program is in memory, and nothing else. -/
structure Loads (program : List SourceLine) (memory : Memory) : Prop where
  code : ∀ before l after st, program = before ++ l :: after → l.body = some (.statement st) →
    Reads memory (BitVec.ofInt 32 (behindAll before 0)) (st.bytes (resolve program))
  zero : ∀ address, InRange 65536 address →
    (∀ before l after, program = before ++ l :: after →
      ¬ (l.place (behindAll before 0) ≤ address ∧ address < l.behind (behindAll before 0))) →
    getByte memory address = (0, false)

theorem loads_putRecords {program : List SourceLine} (forward : Forward program 0) :
    Loads program (putRecords initMemory (records (resolve program) program 0)) where
  code := by
    intro before l after st split body offset small
    rw [split] at forward
    obtain ⟨positive, up, below, -⟩ := forward.split
    have bytes : l.bytes (resolve program) = st.bytes (resolve program) := by
      simp [SourceLine.bytes, body]
    have place : l.place (behindAll before 0) = behindAll before 0 := by
      simp [SourceLine.place, body]
    rcases record_cases (resolve program) positive ⟨up, below, trivial⟩ with
      ⟨r, -, noBytes⟩ | ⟨r, record, address, recordBytes⟩
    · rw [← bytes, noBytes] at small
      exact absurd small (Nat.not_lt_zero _)
    · rw [place] at address
      rw [bytes] at recordBytes
      have member : .data r ∈ records (resolve program) program 0 :=
        mem_records.mpr ⟨before, l, after, split, record.symm⟩
      have bounds := r.address_bounds
      rw [address, recordBytes] at bounds
      have pc : (BitVec.ofInt 32 (behindAll before 0)).toInt = behindAll before 0 := by
        rw [BitVec.toInt_ofInt, Int.bmod_def]
        split <;> omega
      rw [toInt_add_ofNat (by rwa [pc]) small, pc]
      have inOrder := (split ▸ forward : Forward program 0).inOrder (resolve program)
        (Int.le_refl 0) (show (-1 : Int) < 0 by decide)
      have stored := @getByte_putRecords initMemory _ _ inOrder r member offset
        (by rwa [recordBytes])
      rw [address] at stored
      simpa only [recordBytes] using stored
  zero := by
    intro address inside outside
    refine (getByte_putRecords_other fun r member covered => ?_).trans (getByte_initMemory inside)
    obtain ⟨before, l, after, split, record⟩ := mem_records.mp member
    rw [split] at forward
    obtain ⟨positive, up, below, -⟩ := forward.split
    rcases record_cases (resolve program) positive ⟨up, below, trivial⟩ with
      ⟨c, isComment, -⟩ | ⟨d, isData, place, bytes⟩
    · rw [record, isComment] at covered
      change 0 ≤ address ∧ address < 0 + ((0 : Nat) : Int) at covered
      omega
    · rw [record, isData] at covered
      change d.address ≤ address ∧ address < d.address + d.bytes.length at covered
      rw [place, bytes, ← behind_eq] at covered
      exact outside before l after split covered

theorem Loads.fetch {program : List SourceLine} {memory : Memory} (loads : Loads program memory)
    {before after : List SourceLine} {l : SourceLine} {st : Statement} {i : Instruction}
    (split : program = before ++ l :: after) (body : l.body = some (.statement st))
    (isInstruction : st.instruction (resolve program) = some i) :
    fetchInstruction memory (BitVec.ofInt 32 (behindAll before 0)) =
      i.decoded (BitVec.ofInt 32 (behindAll before 0)) := by
  have reads := loads.code before l after st split body
  rw [← instruction_bytes isInstruction] at reads
  exact fetchInstruction_bytes reads

/-- For every proper program that goes forward: `load` accepts the file that the
assembler writes, the code of every statement is at the address of its line, all other
bytes are zero, and at the address of every statement that is an instruction the
simulator fetches this instruction with its registers and the addresses of its labels. -/
theorem load_program {program : List SourceLine} (proper : Proper program)
    (forward : Forward program 0) {fileName : Text} (validName : validatefilename fileName = true)
    (buf : Buffer) :
    (load fileName (some (main (sourceText program)).outfile) buf initMemory).result = true ∧
      Loads program
        (load fileName (some (main (sourceText program)).outfile) buf initMemory).memory ∧
      ∀ before l after st i, program = before ++ l :: after →
        l.body = some (.statement st) → st.instruction (resolve program) = some i →
        fetchInstruction
            (load fileName (some (main (sourceText program)).outfile) buf initMemory).memory
            (BitVec.ofInt 32 (behindAll before 0)) =
          i.decoded (BitVec.ofInt 32 (behindAll before 0)) := by
  have fromStart : InOrder (LoadState.start buf initMemory).prevaddr
      (records (resolve program) program 0) :=
    forward.inOrder (resolve program) (Int.le_refl 0) (show (-1 : Int) < 0 by decide)
  obtain ⟨final, lines, memory⟩ := loadLines_fileText fromStart true
  have loads : Loads program final.memory := by
    rw [memory]
    exact loads_putRecords forward
  rw [proper.outfile, load_of_ok validName lines]
  exact ⟨rfl, loads, fun before l after st i split body isInstruction =>
    loads.fetch split body isInstruction⟩

/-- Loading the jump to a label. -/
theorem load_program_jumpToEnd :
    (load (ascii "jump.yo") (some (main (sourceText jumpToEnd)).outfile) (fun _ => nul)
        initMemory).result = true ∧
      Loads jumpToEnd
        (load (ascii "jump.yo") (some (main (sourceText jumpToEnd)).outfile) (fun _ => nul)
          initMemory).memory ∧
      ∀ before l after st i, jumpToEnd = before ++ l :: after →
        l.body = some (.statement st) → st.instruction (resolve jumpToEnd) = some i →
        fetchInstruction
            (load (ascii "jump.yo") (some (main (sourceText jumpToEnd)).outfile) (fun _ => nul)
              initMemory).memory
            (BitVec.ofInt 32 (behindAll before 0)) =
          i.decoded (BitVec.ofInt 32 (behindAll before 0)) :=
  load_program proper_jumpToEnd (by decide +kernel) (by decide +kernel) (fun _ => nul)

/-! ## The other simulator -/

def codeSize (program : List SourceLine) : Nat :=
  (program.map fun l => (l.bytes (resolve program)).length).sum

theorem byteCount_records {program : List SourceLine} (resolve : Text → Int) {bytepos : Int}
    (positive : 0 ≤ bytepos) (forward : Forward program bytepos) :
    Isa.byteCount (records resolve program bytepos) =
      (program.map fun l => (l.bytes resolve).length).sum := by
  induction program generalizing bytepos with
  | nil => rfl
  | cons l rest ih =>
      obtain ⟨up, below, later⟩ := forward
      have behind := behind_eq l resolve bytepos
      have others := ih (by omega) later
      have own : (l.record resolve bytepos).bytes = l.bytes resolve := by
        rcases record_cases resolve positive ⟨up, below, trivial⟩ with
          ⟨r, record, noBytes⟩ | ⟨r, record, -, bytes⟩
        · rw [record, noBytes]
          rfl
        · rw [record]
          exact bytes
      rw [List.map_cons, List.sum_cons, ← own, ← others]
      rfl

theorem length_record {l : SourceLine} (proper : l.Proper) (resolve : Text → Int)
    (bytepos : Int) : (l.record resolve bytepos).line.length = l.text.length + 24 := by
  have clean : newline ∉ space :: l.text := by
    intro member
    rcases List.mem_cons.mp member with isSpace | member
    · exact absurd isSpace (by decide)
    · exact (proper.oneLine newline member).2.1 rfl
  have tail : (l.record resolve bytepos).tail = space :: l.text := by
    unfold SourceLine.record
    by_cases noTokens : l.tokens = []
    · rw [if_pos noTokens]
      exact oneLine_eq clean
    · rw [if_neg noTokens]
      exact oneLine_eq clean
  rw [Record.line, List.length_append, Record.length_columns, tail, List.length_cons]
  omega

/-- For every proper program that goes forward and whose lines leave room for the columns
in the buffer of `yis`: both simulators load the assembler's file, `yis` counts the bytes
of the program, and the two memories have the same bytes. -/
theorem loadMem_program {program : List SourceLine} (proper : Proper program)
    (forward : Forward program 0) (short : ∀ l ∈ program, l.text.length + 25 < Isa.lineLen)
    {fileName : Text} (validName : validatefilename fileName = true) (buf : Buffer) :
    ∃ m, Isa.loadMem (Isa.initMem Isa.memSize) (main (sourceText program)).outfile =
        .loaded m (codeSize program) ∧ m.len = Isa.memSize ∧
      Isa.SameBytes m
        (load fileName (some (main (sourceText program)).outfile) buf initMemory).memory := by
  have fits : ∀ r ∈ records (resolve program) program 0, r.line.length + 1 < Isa.lineLen := by
    intro r member
    obtain ⟨before, l, after, split, rfl⟩ := mem_records.mp member
    have listed : l ∈ program := by
      rw [split]
      exact List.mem_append_right _ List.mem_cons_self
    rw [length_record (proper.lines l listed)]
    exact short l listed
  have fromStart : InOrder (LoadState.start buf initMemory).prevaddr
      (records (resolve program) program 0) :=
    forward.inOrder (resolve program) (Int.le_refl 0) (show (-1 : Int) < 0 by decide)
  obtain ⟨final, lines, memory⟩ := loadLines_fileText fromStart true
  obtain ⟨m, loaded, len, same⟩ := Isa.loadMem_fileText fits true
  rw [byteCount_records (resolve program) (Int.le_refl 0) forward] at loaded
  refine ⟨m, ?_, len, ?_⟩
  · rw [proper.outfile]
    exact loaded
  · rw [proper.outfile, load_of_ok validName lines]
    dsimp only
    rw [memory]
    exact same

/-- Both simulators load the jump to a label. -/
theorem loadMem_program_jumpToEnd :
    ∃ m, Isa.loadMem (Isa.initMem Isa.memSize) (main (sourceText jumpToEnd)).outfile =
        .loaded m (codeSize jumpToEnd) ∧ m.len = Isa.memSize ∧
      Isa.SameBytes m
        (load (ascii "jump.yo") (some (main (sourceText jumpToEnd)).outfile) (fun _ => nul)
          initMemory).memory :=
  loadMem_program proper_jumpToEnd (by decide +kernel) (by decide +kernel) (by decide +kernel)
    (fun _ => nul)

end Yess.Yas
