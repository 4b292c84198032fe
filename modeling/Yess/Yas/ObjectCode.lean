import Yess.Yas.Passes
import Yess.Yas.Scanning

/-!
# The object code of a program

Both passes over a whole program: the file that is printed has the records of the
program, with the labels at the addresses of the lines they stand on.
-/

namespace Yess.Yas

open Lib.CString Lib.LongestMatch

namespace Assembler

/-! ## One line -/

/-- The tokens of a line are all there when it ends. -/
theorem Ready.calls {s : Assembler} (ready : s.Ready) {l : SourceLine} (proper : l.Proper) :
    s.perform l.calls = ((s.keeping l.text).withTokens l.tokens).call .finishLine := by
  have kept : (s.keeping l.text).Ready :=
    ⟨ready.tokens, ready.tpos, ready.strpos, ready.bcount, ready.errorMode⟩
  have saved : s.call (.saveLine (l.text ++ [newline])) = s.keeping l.text :=
    s.saveLine_text proper.oneLine proper.short
  unfold perform SourceLine.calls
  rw [List.foldl_cons, saved, List.foldl_append, kept.addTokens (length_tokens l) proper.strings]
  rfl

/-- What lines without errors do: they add symbols, print, and move the address.  The
byte before the line is read for those that are empty. -/
structure Passes (s t : Assembler) (lines : List SourceLine) (symbols : List (Text × Int))
    (text : Text) (bytepos : Int) : Prop where
  ready : t.Ready
  pass : t.pass = s.pass
  bytepos : t.bytepos = bytepos
  symbolTable : t.symbolTable = s.symbolTable ++ symbols
  outfile : t.outfile = s.outfile ++ text
  hitError : t.hitError = s.hitError
  stderr : t.stderr = s.stderr
  overrun : t.overrun = s.overrun
  underrun : t.underrun = (s.underrun || lines.any fun l => l.text = [])

theorem Passes.refl {s : Assembler} (ready : s.Ready) : Passes s s [] [] [] s.bytepos :=
  ⟨ready, rfl, rfl, (List.append_nil _).symm, (List.append_nil _).symm, rfl, rfl, rfl,
    (Bool.or_false _).symm⟩

theorem Passes.trans {s t u : Assembler} {lines others : List SourceLine}
    {symbols more : List (Text × Int)} {text behind : Text} {middle last : Int}
    (front : Passes s t lines symbols text middle) (back : Passes t u others more behind last) :
    Passes s u (lines ++ others) (symbols ++ more) (text ++ behind) last where
  ready := back.ready
  pass := back.pass.trans front.pass
  bytepos := back.bytepos
  symbolTable := by rw [back.symbolTable, front.symbolTable, List.append_assoc]
  outfile := by rw [back.outfile, front.outfile, List.append_assoc]
  hitError := back.hitError.trans front.hitError
  stderr := back.stderr.trans front.stderr
  overrun := back.overrun.trans front.overrun
  underrun := by rw [back.underrun, front.underrun, List.any_append, Bool.or_assoc]

def symbol (l : SourceLine) (bytepos : Int) : List (Text × Int) :=
  (l.label.map fun name => (name, bytepos)).toList

theorem Ready.first {s : Assembler} (ready : s.Ready) (first : s.pass = 1) {l : SourceLine}
    (proper : l.Proper) (ints : ∀ value ∈ l.computed s.bytepos, IsInt value)
    (room : (s.symbolTable ++ symbol l s.bytepos).length ≤ stab) :
    Passes s (s.perform l.calls) [l] (symbol l s.bytepos) [] (l.behind s.bytepos) := by
  have underrun : (s.underrun || decide (l.text = [])) =
      (s.underrun || [l].any fun l => l.text = []) := by
    rw [List.any_cons, List.any_nil, Bool.or_false]
  have noError : ¬ ((s.keeping l.text).withTokens l.tokens).errorMode = true := by
    change ¬ s.errorMode = true
    rw [ready.errorMode]
    exact Bool.false_ne_true
  have line := @finishLine_first ((s.keeping l.text).withTokens l.tokens) l first rfl noError
    proper ints
  rw [ready.calls proper]
  unfold call
  rw [line]
  cases label : l.label with
  | none =>
      have noSymbol : symbol l s.bytepos = [] := by simp [symbol, label]
      rw [noSymbol]
      exact ⟨⟨rfl, rfl, rfl, rfl, rfl⟩, rfl, rfl, (List.append_nil _).symm,
        (List.append_nil _).symm, rfl, rfl, rfl, underrun⟩
  | some name =>
      have oneSymbol : symbol l s.bytepos = [(name, s.bytepos)] := by simp [symbol, label]
      rw [oneSymbol] at room ⊢
      rw [List.length_append, List.length_singleton] at room
      have inside : decide (s.symbolTable.length ≥ stab) = false :=
        decide_eq_false (Nat.not_le.mpr room)
      have noted : ((s.keeping l.text).withTokens l.tokens).labelled (some name) =
          ((s.keeping l.text).withTokens l.tokens).addSymbol name s.bytepos :=
        if_pos first
      rw [noted]
      refine ⟨⟨rfl, rfl, rfl, rfl, rfl⟩, rfl, rfl, rfl, (List.append_nil _).symm, rfl, rfl, ?_,
        underrun⟩
      change (s.overrun || decide (s.symbolTable.length ≥ stab)) = s.overrun
      rw [inside, Bool.or_false]

theorem Ready.second {s : Assembler} (ready : s.Ready) (second : s.pass = 2) {l : SourceLine}
    (proper : l.Proper) (ints : ∀ value ∈ l.computed s.bytepos, IsInt value)
    {resolve : Text → Int} (resolves : s.Resolves resolve l.names) :
    Passes s (s.perform l.calls) [l] [] ((l.record resolve s.bytepos).line ++ [newline])
      (l.behind s.bytepos) := by
  have underrun : (s.underrun || decide (l.text = [])) =
      (s.underrun || [l].any fun l => l.text = []) := by
    rw [List.any_cons, List.any_nil, Bool.or_false]
  have noError : ¬ ((s.keeping l.text).withTokens l.tokens).errorMode = true := by
    change ¬ s.errorMode = true
    rw [ready.errorMode]
    exact Bool.false_ne_true
  obtain ⟨code, line⟩ := @finishLine_second ((s.keeping l.text).withTokens l.tokens) l resolve
    second rfl noError ready.bcount rfl proper ints resolves
  rw [ready.calls proper]
  unfold call
  rw [line]
  exact ⟨⟨rfl, rfl, rfl, rfl, rfl⟩, rfl, rfl, (List.append_nil _).symm,
    List.append_assoc _ _ _, rfl, rfl, rfl, underrun⟩

/-! ## All lines -/

theorem perform_append (s : Assembler) (calls more : List Call) :
    s.perform (calls ++ more) = (s.perform calls).perform more := List.foldl_append

/-- The first pass notes the labels. -/
theorem Ready.firstPass {program : List SourceLine} (proper : ∀ l ∈ program, l.Proper)
    {s : Assembler} (ready : s.Ready) (first : s.pass = 1)
    (ints : ∀ value ∈ computed program s.bytepos, IsInt value)
    (room : (s.symbolTable ++ labels program s.bytepos).length ≤ stab) :
    Passes s (s.perform (program.flatMap SourceLine.calls)) program (labels program s.bytepos) []
      (behindAll program s.bytepos) := by
  induction program generalizing s with
  | nil => exact .refl ready
  | cons l rest ih =>
      have split : labels (l :: rest) s.bytepos =
          symbol l s.bytepos ++ labels rest (l.behind s.bytepos) := rfl
      rw [split, ← List.append_assoc] at room
      have fits : (s.symbolTable ++ symbol l s.bytepos).length ≤ stab := by
        rw [List.length_append] at room
        omega
      obtain ⟨own, later⟩ := List.forall_mem_append.mp ints
      have line := ready.first first (proper l List.mem_cons_self) own fits
      rw [← line.symbolTable, ← line.bytepos] at room
      rw [← line.bytepos] at later
      have others := ih (fun l member => proper l (List.mem_cons_of_mem _ member)) line.ready
        (line.pass.trans first) later room
      rw [line.bytepos] at others
      rw [List.flatMap_cons, perform_append, split]
      exact line.trans others

def listing (records : List Record) : Text := records.flatMap fun r => r.line ++ [newline]

/-- The second pass prints the records. -/
theorem Ready.secondPass {program : List SourceLine} (proper : ∀ l ∈ program, l.Proper)
    {resolve : Text → Int} {s : Assembler} (ready : s.Ready) (second : s.pass = 2)
    (ints : ∀ value ∈ computed program s.bytepos, IsInt value)
    (resolves : ∀ l ∈ program, s.Resolves resolve l.names) :
    Passes s (s.perform (program.flatMap SourceLine.calls)) program []
      (listing (records resolve program s.bytepos)) (behindAll program s.bytepos) := by
  induction program generalizing s with
  | nil => exact .refl ready
  | cons l rest ih =>
      obtain ⟨own, later⟩ := List.forall_mem_append.mp ints
      have line := ready.second second (proper l List.mem_cons_self) own
        (resolves l List.mem_cons_self)
      have symbols : (s.perform l.calls).symbolTable = s.symbolTable :=
        line.symbolTable.trans (List.append_nil _)
      have kept : ∀ l' ∈ rest, (s.perform l.calls).Resolves resolve l'.names := by
        intro l' member name used
        rw [symbols]
        exact resolves l' (List.mem_cons_of_mem _ member) name used
      rw [← line.bytepos] at later
      have others := ih (fun l member => proper l (List.mem_cons_of_mem _ member)) line.ready
        (line.pass.trans second) later kept
      rw [line.bytepos] at others
      rw [List.flatMap_cons, perform_append]
      exact line.trans others

end Assembler

/-! ## The file -/

open Assembler

theorem fileText_listing (records : List Record) :
    fileText true records = Assembler.listing records := by
  induction records with
  | nil => rfl
  | cons r rest ih =>
      cases rest with
      | nil => exact (List.append_nil _).symm
      | cons next others =>
          rw [fileText, ih]
          exact List.append_cons _ _ _

theorem find?_labels {program : List SourceLine} {name : Text} {address : Int}
    (defined : (name, address) ∈ labels program 0) :
    ((labels program 0).find? fun symbol => symbol.1 = name).map Prod.snd =
      some (resolve program name) := by
  unfold resolve
  cases found : (labels program 0).find? fun symbol => symbol.1 = name with
  | none => exact absurd (decide_eq_true rfl) (List.find?_eq_none.mp found _ defined)
  | some symbol => rfl

theorem scan_line {l : SourceLine} (proper : l.Proper) (rest : Text) :
    scan 0 true false (l.text ++ newline :: rest) =
      (scan 0 true false rest).after l.calls := by
  have clean : ∀ c ∈ l.text, isChar c = true := by
    intro c member
    obtain ⟨-, noNewline, noReturn⟩ := proper.oneLine c member
    unfold isChar
    rw [decide_eq_true noNewline, decide_eq_true noReturn]
    rfl
  rw [scan_bol clean, scan_written proper.written clean]
  rfl

theorem scan_program {program : List SourceLine} (proper : ∀ l ∈ program, l.Proper) :
    scan 0 true false (sourceText program) = ⟨program.flatMap SourceLine.calls, false⟩ := by
  induction program with
  | nil => rfl
  | cons l rest ih =>
      have file : sourceText (l :: rest) = l.text ++ newline :: sourceText rest := by
        rw [sourceText, List.flatMap_cons, ← List.append_cons]
        rfl
      rw [file, scan_line (proper l List.mem_cons_self),
        ih fun l member => proper l (List.mem_cons_of_mem _ member)]
      rfl

/-- Both passes over a program: the first one notes its labels, the second one prints. -/
theorem Proper.passes {program : List SourceLine} (proper : Proper program) :
    ∃ s, Passes .start s program (labels program 0) [] (behindAll program 0) ∧
      Passes s.rewind (main (sourceText program)) program []
        (listing (records (resolve program) program 0)) (behindAll program 0) := by
  have start : Assembler.start.Ready := ⟨rfl, rfl, rfl, rfl, rfl⟩
  have first := start.firstPass proper.lines rfl proper.ints proper.few
  refine ⟨_, first, ?_⟩
  generalize between : Assembler.start.perform (program.flatMap SourceLine.calls) = s at first ⊢
  have table : s.symbolTable = labels program 0 := first.symbolTable
  have ready : s.rewind.Ready :=
    ⟨first.ready.tokens, first.ready.tpos, first.ready.strpos, first.ready.bcount, rfl⟩
  have resolves : ∀ l ∈ program, s.rewind.Resolves (resolve program) l.names := by
    intro l member name used
    obtain ⟨address, defined⟩ := proper.defined l member name used
    change (s.symbolTable.find? _).map Prod.snd = _
    rw [table]
    exact find?_labels defined
  have both : main (sourceText program) =
      s.rewind.perform (program.flatMap SourceLine.calls) := by
    have noError : ¬ s.hitError = true := by
      rw [first.hitError]
      exact Bool.false_ne_true
    unfold main yylex
    rw [scan_program proper.lines]
    dsimp only
    rw [between, if_neg noError, scan_program proper.lines]
  rw [both]
  exact ready.secondPass proper.lines rfl proper.ints resolves

theorem Proper.outfile {program : List SourceLine} (proper : Proper program) :
    (main (sourceText program)).outfile = fileText true (records (resolve program) program 0) := by
  obtain ⟨s, first, second⟩ := proper.passes
  have noFile : s.rewind.outfile = [] := first.outfile
  have printed := second.outfile
  rw [noFile, List.nil_append] at printed
  exact printed.trans (fileText_listing _).symm

/-- A jump over a comment to a label. -/
def jumpToEnd : List SourceLine :=
  [⟨none, some (.statement (.jxx 0 (.label (ascii "L")))), spaced [ascii "jmp", ascii "L"]⟩,
    ⟨none, none, ascii "#" ++ ascii " skipped"⟩,
    ⟨some (ascii "L"), some (.statement .halt), spaced [ascii "L", ascii ":", ascii "halt"]⟩]

theorem proper_jumpToEnd : Proper jumpToEnd := by
  have label : Spells (ascii "L") (.ident (ascii "L")) :=
    .ident (by decide) (fun _ member => absurd member List.not_mem_nil) (by decide +kernel)
  have jump : Written [.instr (ascii "jmp"), .ident (ascii "L")]
      (spaced [ascii "jmp", ascii "L"]) := by
    refine @written_spaced [(ascii "jmp", .instr (ascii "jmp")), (_, .ident (ascii "L"))] ?_
    simp only [List.forall_mem_cons, List.not_mem_nil, false_implies, implies_true, and_true]
    exact ⟨.instr (by decide +kernel), label⟩
  have halt : Written [.ident (ascii "L"), .punct (ch ':'), .instr (ascii "halt")]
      (spaced [ascii "L", ascii ":", ascii "halt"]) := by
    refine @written_spaced [(_, .ident (ascii "L")), (ascii ":", .punct (ch ':')),
      (_, .instr (ascii "halt"))] ?_
    simp only [List.forall_mem_cons, List.not_mem_nil, false_implies, implies_true, and_true]
    exact ⟨label, .punct (by decide), .instr (by decide +kernel)⟩
  have comment : Written [] (ascii "#" ++ ascii " skipped") := .comment (by decide +kernel)
  constructor
  · unfold jumpToEnd
    simp only [List.forall_mem_cons, List.not_mem_nil, false_implies, implies_true, and_true]
    exact ⟨⟨jump, by decide +kernel, by decide +kernel, by decide +kernel, by simp⟩,
      ⟨comment, by decide +kernel, by decide +kernel, by decide +kernel, by simp⟩,
      ⟨halt, by decide +kernel, by decide +kernel, by decide +kernel, by simp⟩⟩
  · decide +kernel
  · decide +kernel
  · unfold jumpToEnd
    simp only [List.forall_mem_cons, List.not_mem_nil, false_implies, implies_true, and_true]
    refine ⟨fun name used => ?_, fun _ used => ?_, fun _ used => ?_⟩
    · rw [List.mem_singleton.mp used]
      exact ⟨5, by decide +kernel⟩
    · exact absurd used List.not_mem_nil
    · exact absurd used List.not_mem_nil

end Yess.Yas
