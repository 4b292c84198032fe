import Yess.Yas.Listing

/-!
# The two passes

The first pass over a program leaves its labels with their addresses, and the
second one its records.
-/

namespace Yess.Yas

open Lib.CString

theorem IsInt.wrapInt_eq {value : Int} (isInt : IsInt value) : wrapInt value = value := by
  obtain ⟨lower, upper⟩ := isInt
  unfold intMin at lower
  unfold intMax at upper
  unfold wrapInt
  rw [BitVec.toInt_ofInt, Int.bmod_def]
  split <;> omega

/-! ## The tokens of a line -/

theorem length_operands (st : Statement) : st.operands.length ≤ 6 := by
  have address (a : Address) : a.tokens.length ≤ 4 := by
    obtain ⟨displacement, base⟩ := a
    cases displacement <;> cases base <;> exact Nat.le_of_ble_eq_true rfl
  cases st with
  | rmmovl rA a =>
      have short := address a
      change a.tokens.length + 1 + 1 ≤ 6
      omega
  | mrmovl a rA =>
      have short := address a
      change (a.tokens ++ [_, _]).length ≤ 6
      rw [List.length_append]
      exact Nat.add_le_add_right short 2
  | _ => exact Nat.le_of_ble_eq_true rfl

theorem Body.tokens_eq (b : Body) : ∃ sval rest, b.tokens = .instr sval :: rest := by
  cases b with
  | statement st => exact ⟨_, _, rfl⟩
  | pos address => exact ⟨_, _, rfl⟩
  | align amount => exact ⟨_, _, rfl⟩

theorem length_tokens (l : SourceLine) : l.tokens.length ≤ tokPerLine := by
  have body (b : Body) : b.tokens.length ≤ 7 := by
    cases b with
    | statement st => exact Nat.succ_le_succ (length_operands st)
    | pos address => exact Nat.le_of_ble_eq_true rfl
    | align amount => exact Nat.le_of_ble_eq_true rfl
  obtain ⟨label, rest, text⟩ := l
  unfold SourceLine.tokens
  rw [List.length_append]
  cases label with
  | none =>
      cases rest with
      | none => exact Nat.zero_le _
      | some b => exact (Nat.zero_add _).trans_le ((body b).trans (by decide))
  | some name =>
      cases rest with
      | none => exact Nat.le_of_ble_eq_true rfl
      | some b => exact (Nat.add_le_add_left (body b) 2).trans (by decide)

/-- The table has an entry for every statement, and none for the directives. -/
theorem mnemonic_ne (st : Statement) :
    st.mnemonic ≠ ascii ".pos" ∧ st.mnemonic ≠ ascii ".align" := by
  have known := findInstr_mnemonic st
  constructor
  · intro same
    rw [same] at known
    exact absurd known (by rw [show findInstr (ascii ".pos") = none by decide +kernel]; nofun)
  · intro same
    rw [same] at known
    exact absurd known (by rw [show findInstr (ascii ".align") = none by decide +kernel]; nofun)

theorem row_bytes (st : Statement) (resolve : Text → Int) :
    st.row.bytes = (st.bytes resolve).length := by
  cases st with
  | data width constant => cases width <;> rfl
  | _ => rfl

theorem row_bytes_le (st : Statement) : st.row.bytes ≤ 6 := by
  cases st with
  | data width constant => cases width <;> exact Nat.le_of_ble_eq_true rfl
  | _ => exact Nat.le_of_ble_eq_true rfl

namespace SourceLine

theorem length_bytes_le (l : SourceLine) (resolve : Text → Int) :
    (l.bytes resolve).length ≤ 6 := by
  unfold bytes
  split
  · rw [← row_bytes]
    exact row_bytes_le _
  · exact Nat.zero_le 6

def Plain (l : SourceLine) : Prop := ∀ st, l.body ≠ some (.statement st)

theorem Plain.bytes {l : SourceLine} (plain : l.Plain) (resolve : Text → Int) :
    l.bytes resolve = [] := by
  unfold SourceLine.bytes
  split
  · rename_i st body
    exact absurd body (plain st)
  · rfl

theorem Plain.behind {l : SourceLine} (plain : l.Plain) (bytepos : Int) :
    l.behind bytepos = l.place bytepos := by
  rw [SourceLine.behind, plain.bytes]
  exact Int.add_zero _

theorem behind_statement {l : SourceLine} {st : Statement} (body : l.body = some (.statement st))
    (bytepos : Int) : l.behind bytepos = bytepos + st.row.bytes := by
  rw [row_bytes st fun _ => 0]
  simp [behind, place, bytes, body]

theorem wrapInt_behind {l : SourceLine} {st : Statement} (body : l.body = some (.statement st))
    {bytepos : Int} (ints : ∀ value ∈ l.computed bytepos, IsInt value) :
    wrapInt (bytepos + st.row.bytes) = l.behind bytepos := by
  have behind := behind_statement body bytepos
  have listed : l.behind bytepos ∈ l.computed bytepos := by simp [computed, body]
  rw [← behind]
  exact (ints _ listed).wrapInt_eq

theorem plain_or_statement (l : SourceLine) :
    l.Plain ∨ ∃ st, l.body = some (.statement st) := by
  by_cases some : ∃ st, l.body = some (.statement st)
  · exact Or.inr some
  · exact Or.inl fun st body => some ⟨st, body⟩

end SourceLine

namespace Assembler

/-! ## The end of a line -/

/-- The state with the label of a line noted in the first pass. -/
def labelled (s : Assembler) : Option Text → Assembler
  | none => s
  | some name => if s.pass = 1 then s.addSymbol name s.bytepos else s

theorem finishLine_label {s : Assembler} {name : Text} {rest : List Token}
    (tokens : s.tokens = .ident name :: .punct (ch ':') :: rest) (noError : ¬ s.errorMode = true) :
    s.finishLine =
      if rest = [] then { s.labelled (some name) with tpos := 2 }.endLine s.bytepos
      else { s.labelled (some name) with tpos := 2 }.finishInstr s.bytepos := by
  have first : { s with tpos := 0 }.token 0 = .ident name := by
    rw [token, tokens]
    rfl
  have second : ¬ { s with tpos := 0 }.token 1 ≠ .punct (ch ':') := by
    rw [token, tokens]
    exact not_not.mpr rfl
  have length : s.tokens.length = 2 ↔ rest = [] := by
    rw [tokens, List.length_cons, List.length_cons, ← List.length_eq_zero_iff]
    omega
  have notEmpty : s.tokens ≠ [] := by
    rw [tokens]
    exact List.cons_ne_nil _ _
  unfold finishLine
  dsimp only
  rw [if_neg notEmpty, if_neg noError, first]
  dsimp only
  rw [if_neg second]
  unfold labelled
  dsimp only
  by_cases firstPass : s.pass = 1
  · rw [if_pos firstPass, if_pos firstPass]
    exact if_congr length rfl rfl
  · rw [if_neg firstPass, if_neg firstPass]
    exact if_congr length rfl rfl

theorem finishLine_instr {s : Assembler} {sval : Text} {rest : List Token}
    (tokens : s.tokens = .instr sval :: rest) (noError : ¬ s.errorMode = true) :
    s.finishLine = { s with tpos := 0 }.finishInstr s.bytepos := by
  have first : { s with tpos := 0 }.token 0 = .instr sval := by
    rw [token, tokens]
    rfl
  have notEmpty : s.tokens ≠ [] := by
    rw [tokens]
    exact List.cons_ne_nil _ _
  unfold finishLine
  dsimp only
  rw [if_neg notEmpty, if_neg noError, first]

theorem finishLine_none {s : Assembler} {l : SourceLine} (tokens : s.tokens = l.tokens)
    (noError : ¬ s.errorMode = true) (noBody : l.body = none) :
    ∃ tpos, s.finishLine = { s.labelled l.label with tpos := tpos }.endLine s.bytepos := by
  obtain ⟨label, body, text⟩ := l
  dsimp only at noBody
  subst noBody
  cases label with
  | none => exact ⟨0, if_pos tokens⟩
  | some name => exact ⟨2, finishLine_label tokens noError⟩

theorem finishLine_some {s : Assembler} {l : SourceLine} (tokens : s.tokens = l.tokens)
    (noError : ¬ s.errorMode = true) {b : Body} (body : l.body = some b) :
    ∃ tpos, Ahead s.tokens tpos b.tokens ∧
      s.finishLine = { s.labelled l.label with tpos := tpos }.finishInstr s.bytepos := by
  obtain ⟨label, rest, text⟩ := l
  dsimp only at body
  subst body
  obtain ⟨sval, others, bodyTokens⟩ := b.tokens_eq
  cases label with
  | none =>
      have line : s.tokens = b.tokens := tokens
      exact ⟨0, line, finishLine_instr (line.trans bodyTokens) noError⟩
  | some name =>
      have line : s.tokens = .ident name :: .punct (ch ':') :: b.tokens := tokens
      have more : b.tokens ≠ [] := by
        rw [bodyTokens]
        exact List.cons_ne_nil _ _
      refine ⟨2, congrArg (List.drop 2) line, ?_⟩
      rw [finishLine_label line noError, if_neg more]

/-! ## Statements and directives -/

/-- A statement: its size is known before its code is. -/
theorem finishInstr_statement {s : Assembler} {st : Statement} {tpos : Nat}
    (ahead : Ahead s.tokens tpos st.tokens) (pos : Int) :
    { s with tpos := tpos }.finishInstr pos =
      (let s := { s with
          tpos := tpos + 1
          bytepos := wrapInt (s.bytepos + st.row.bytes)
          bcount := st.row.bytes }
      if s.pass = 1 then s.startLine else s.encode st.row pos) := by
  have first : { s with tpos := tpos }.token tpos = .instr st.mnemonic := ahead.token
  obtain ⟨notPos, notAlign⟩ := mnemonic_ne st
  unfold finishInstr
  dsimp only
  rw [first]
  dsimp only
  rw [if_neg notPos, if_neg notAlign, findInstr_mnemonic]
  rfl

theorem finishInstr_pos {s : Assembler} {address : Int} {tpos : Nat}
    (ahead : Ahead s.tokens tpos (Body.tokens (.pos address))) (pos : Int) :
    { s with tpos := tpos }.finishInstr pos =
      { s with tpos := tpos + 1, bytepos := address }.endLine address := by
  have first : { s with tpos := tpos }.token tpos = .instr (ascii ".pos") := ahead.token
  have second : { s with tpos := tpos + 1 }.token (tpos + 1) = .num address := ahead.next.token
  unfold finishInstr
  dsimp only
  rw [first]
  dsimp only
  rw [if_pos rfl, second]

theorem finishInstr_align {s : Assembler} {amount : Int} {tpos : Nat}
    (ahead : Ahead s.tokens tpos (Body.tokens (.align amount))) (positive : 0 < amount)
    (pos : Int) :
    { s with tpos := tpos }.finishInstr pos =
      { s with
        tpos := tpos + 1
        bytepos := (wrapInt (s.bytepos + amount - 1)).tdiv amount * amount }.endLine
          ((wrapInt (s.bytepos + amount - 1)).tdiv amount * amount) := by
  have first : { s with tpos := tpos }.token tpos = .instr (ascii ".align") := ahead.token
  have second : { s with tpos := tpos + 1 }.token (tpos + 1) = .num amount := ahead.next.token
  unfold finishInstr
  dsimp only
  rw [first]
  dsimp only
  rw [if_neg (by decide), if_pos rfl, second]
  dsimp only
  rw [if_neg (Int.not_le.mpr positive)]

theorem labelled_same (s : Assembler) (label : Option Text) :
    (s.labelled label).pass = s.pass ∧ (s.labelled label).tokens = s.tokens ∧
      (s.labelled label).bytepos = s.bytepos := by
  cases label with
  | none => exact ⟨rfl, rfl, rfl⟩
  | some name =>
      unfold labelled
      dsimp only
      by_cases first : s.pass = 1
      · rw [if_pos first]
        exact ⟨rfl, rfl, rfl⟩
      · rw [if_neg first]
        exact ⟨rfl, rfl, rfl⟩

theorem finishLine_plain {s : Assembler} {l : SourceLine} (tokens : s.tokens = l.tokens)
    (noError : ¬ s.errorMode = true) (proper : l.Proper)
    (ints : ∀ value ∈ l.computed s.bytepos, IsInt value) (plain : l.Plain) :
    ∃ tpos, s.finishLine =
      { s.labelled l.label with tpos := tpos, bytepos := l.place s.bytepos }.endLine
        (l.place s.bytepos) := by
  obtain ⟨-, tokensSame, bytepos⟩ := s.labelled_same l.label
  cases body : l.body with
  | none =>
      obtain ⟨tpos, line⟩ := finishLine_none tokens noError body
      have place : l.place s.bytepos = s.bytepos := by simp [SourceLine.place, body]
      refine ⟨tpos, ?_⟩
      rw [line, place, ← bytepos]
  | some b =>
      obtain ⟨tpos, ahead, line⟩ := finishLine_some tokens noError body
      rw [← tokensSame] at ahead
      refine ⟨tpos + 1, ?_⟩
      cases b with
      | statement st => exact absurd body (plain st)
      | pos address =>
          have place : l.place s.bytepos = address := by simp [SourceLine.place, body]
          rw [line, finishInstr_pos ahead, place]
      | align amount =>
          have place : l.place s.bytepos = (s.bytepos + amount - 1).tdiv amount * amount := by
            simp [SourceLine.place, body]
          have sum : wrapInt (s.bytepos + amount - 1) = s.bytepos + amount - 1 :=
            (ints _ (by simp [SourceLine.computed, body])).wrapInt_eq
          rw [line, finishInstr_align ahead (proper.align amount body), bytepos, sum, place]

def opening (s : Assembler) (st : Statement) (tpos : Nat) : Assembler :=
  { s with
    tpos := tpos
    bytepos := wrapInt (s.bytepos + st.row.bytes)
    bcount := st.row.bytes }

theorem finishLine_statement {s : Assembler} {l : SourceLine} {st : Statement}
    (tokens : s.tokens = l.tokens) (noError : ¬ s.errorMode = true)
    (body : l.body = some (.statement st)) :
    ∃ tpos, Ahead s.tokens tpos st.operands ∧
      s.finishLine =
        if s.pass = 1 then ((s.labelled l.label).opening st tpos).startLine
        else ((s.labelled l.label).opening st tpos).encode st.row s.bytepos := by
  obtain ⟨pass, tokensSame, bytepos⟩ := s.labelled_same l.label
  obtain ⟨tpos, ahead, line⟩ := finishLine_some tokens noError body
  refine ⟨tpos + 1, ahead.next, ?_⟩
  rw [← tokensSame] at ahead
  rw [line, finishInstr_statement ahead, ← pass]
  rfl

/-! ## The first pass -/

theorem endLine_first {s : Assembler} (first : s.pass = 1) (pos : Int) :
    s.endLine pos = s.startLine := by
  unfold endLine
  rw [first]
  rfl

theorem finishLine_first {s : Assembler} {l : SourceLine} (first : s.pass = 1)
    (tokens : s.tokens = l.tokens) (noError : ¬ s.errorMode = true) (proper : l.Proper)
    (ints : ∀ value ∈ l.computed s.bytepos, IsInt value) :
    s.finishLine = { s.labelled l.label with bytepos := l.behind s.bytepos }.startLine := by
  obtain ⟨pass, -, bytepos⟩ := s.labelled_same l.label
  rcases l.plain_or_statement with plain | ⟨st, body⟩
  · obtain ⟨tpos, line⟩ := finishLine_plain tokens noError proper ints plain
    rw [line, plain.behind]
    exact (@endLine_first { s.labelled l.label with tpos := tpos, bytepos := l.place s.bytepos }
      (pass.trans first) _).trans rfl
  · obtain ⟨tpos, -, line⟩ := finishLine_statement tokens noError body
    rw [line, if_pos first, ← SourceLine.wrapInt_behind body ints, ← bytepos]
    rfl

/-! ## The second pass -/

theorem printCode_record {s : Assembler} {l : SourceLine} {resolve : Text → Int}
    (proper : l.Proper) (tokens : s.tokens = l.tokens) (text : s.inputLine = l.text)
    (isCoded : coded s.code s.bcount = l.bytes resolve) (bytepos : Int) :
    s.printCode (l.place bytepos) =
      { s with outfile := s.outfile ++ (l.record resolve bytepos).line ++ [newline] } := by
  have clean : newline ∉ s.inputLine := by
    rw [text]
    exact fun member => (proper.oneLine newline member).2.1 rfl
  unfold SourceLine.record
  by_cases noTokens : l.tokens = []
  · rw [if_pos noTokens, ← text]
    exact printCode_comment (tokens.trans noTokens) _ clean
  · have hasTokens : s.tokens ≠ [] := fun empty => noTokens (tokens.symm.trans empty)
    have fits : s.bcount ≤ 6 := by
      rw [← length_coded s.code s.bcount, isCoded]
      exact l.length_bytes_le resolve
    rw [if_neg noTokens, ← text]
    exact printCode_data hasTokens _ isCoded fits clean

theorem finishLine_second {s : Assembler} {l : SourceLine} {resolve : Text → Int}
    (second : s.pass = 2) (tokens : s.tokens = l.tokens) (noError : ¬ s.errorMode = true)
    (noCode : s.bcount = 0) (text : s.inputLine = l.text) (proper : l.Proper)
    (ints : ∀ value ∈ l.computed s.bytepos, IsInt value) (resolves : s.Resolves resolve l.names) :
    ∃ code, s.finishLine =
      { s with
        code := code
        bytepos := l.behind s.bytepos
        outfile := s.outfile ++ (l.record resolve s.bytepos).line ++ [newline] }.startLine := by
  have notFirst : ¬ s.pass = 1 := by
    rw [second]
    decide
  have labelled : s.labelled l.label = s := by
    cases l.label with
    | none => rfl
    | some name => exact if_neg notFirst
  rcases l.plain_or_statement with plain | ⟨st, body⟩
  · obtain ⟨tpos, line⟩ := finishLine_plain tokens noError proper ints plain
    have isCoded : coded s.code s.bcount = l.bytes resolve := by
      rw [noCode, plain.bytes]
      rfl
    have last : s.pass > 1 := by
      rw [second]
      decide
    have record := @printCode_record { s with tpos := tpos, bytepos := l.place s.bytepos } l resolve
      proper tokens text isCoded s.bytepos
    refine ⟨s.code, ?_⟩
    rw [line, labelled, plain.behind]
    refine (congrArg startLine ((if_pos last).trans record)).trans rfl
  · obtain ⟨tpos, ahead, line⟩ := finishLine_statement tokens noError body
    have names : l.names = st.names := by simp [SourceLine.names, body]
    have bytes : l.bytes resolve = st.bytes resolve := by simp [SourceLine.bytes, body]
    have place : l.place s.bytepos = s.bytepos := by simp [SourceLine.place, body]
    rw [names] at resolves
    obtain ⟨code, tpos, encoded, isCoded⟩ :=
      @encodes_row (s.opening st tpos) resolve s.bytepos st ahead resolves
    rw [← row_bytes st resolve, ← bytes] at isCoded
    have record := @printCode_record ((s.opening st tpos).moved code tpos) l resolve proper tokens
      text isCoded s.bytepos
    rw [place] at record
    refine ⟨code, ?_⟩
    rw [line, if_neg notFirst, labelled, encoded, ← SourceLine.wrapInt_behind body ints]
    exact (congrArg startLine record).trans rfl

end Assembler

end Yess.Yas
