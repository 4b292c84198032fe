import Yess.Isa.Memory
import Yess.Yas.Syntax

/-!
# Assembling a line

What the calls for one line of a program do: in the first pass they note the label
and the address behind the line, in the second they print the record of the line.
-/

namespace Yess.Yas

open Lib.BitField Lib.CString

/-! ## Reading the tokens -/

namespace Assembler

/-- No token of a line has been read. -/
structure Ready (s : Assembler) : Prop where
  tokens : s.tokens = []
  tpos : s.tpos = 0
  strpos : s.strpos = 0
  bcount : s.bcount = 0
  errorMode : s.errorMode = false

theorem Ready.startLine {s : Assembler} (ready : s.Ready) : s.startLine = s := by
  obtain ⟨tokens, tpos, strpos, bcount, errorMode⟩ := ready
  cases s
  simp_all [Assembler.startLine]

def withTokens (s : Assembler) (ts : List Token) : Assembler :=
  { s with tokens := ts, strpos := (ts.map Token.size).sum }

theorem Ready.withTokens_nil {s : Assembler} (ready : s.Ready) : s.withTokens [] = s := by
  obtain ⟨tokens, tpos, strpos, bcount, errorMode⟩ := ready
  cases s
  simp_all [withTokens]

theorem Ready.addToken {s : Assembler} (ready : s.Ready) {ts : List Token} {t : Token}
    (few : ts.length < tokPerLine) (fits : ((ts ++ [t]).map Token.size).sum ≤ strMax) :
    (s.withTokens ts).addToken t = s.withTokens (ts ++ [t]) := by
  have fresh : (if (s.withTokens ts).tokens = [] then (s.withTokens ts).startLine
      else s.withTokens ts) = s.withTokens ts := by
    cases ts with
    | nil => rw [ready.withTokens_nil, ready.startLine, ite_self]
    | cons first rest => exact if_neg (List.cons_ne_nil _ _)
  have tpos : (s.withTokens ts).tpos = 0 := ready.tpos
  have room : ¬ ((s.withTokens ts).strpos + t.size > strMax ∧ t.size ≠ 0) := by
    rw [List.map_append, List.sum_append, List.map_singleton, List.sum_singleton] at fits
    exact fun full => absurd fits (Nat.not_le.mpr full.1)
  have inside : decide ((s.withTokens ts).tokens.length ≥ tokPerLine) = false :=
    decide_eq_false (Nat.not_le.mpr few)
  unfold Assembler.addToken
  rw [fresh]
  dsimp only
  rw [tpos, if_neg (by decide), if_neg room, inside, Bool.or_false]
  simp [withTokens, ready.tpos]

theorem Ready.addTokens {s : Assembler} (ready : s.Ready) {ts : List Token}
    (few : ts.length ≤ tokPerLine) (fits : (ts.map Token.size).sum ≤ strMax) :
    (ts.map Call.addToken).foldl call s = s.withTokens ts := by
  induction ts using List.reverseRecOn with
  | nil => exact ready.withTokens_nil.symm
  | append_singleton ts t ih =>
      have before : (ts.map Token.size).sum ≤ strMax := by
        rw [List.map_append, List.sum_append] at fits
        omega
      rw [List.length_append, List.length_singleton] at few
      rw [List.map_append, List.foldl_append, ih (by omega) before]
      exact ready.addToken (by omega) fits

def keeping (s : Assembler) (text : Text) : Assembler :=
  { s with inputLine := text, underrun := s.underrun || decide (text = []) }

theorem saveLine_text (s : Assembler) {text : Text}
    (oneLine : ∀ c ∈ text, c ≠ nul ∧ c ≠ newline ∧ c ≠ 0x0d) (short : text.length + 1 < strMax) :
    s.saveLine (text ++ [newline]) = s.keeping text := by
  have clean : nul ∉ text ++ [newline] := by
    intro member
    rcases List.mem_append.mp member with inText | isNewline
    · exact (oneLine nul inText).1 rfl
    · exact absurd (List.mem_singleton.mp isNewline) (by decide)
  have kept : (text ++ [newline]).rdropWhile (fun c => c = newline || c = 0x0d) = text := by
    rw [List.rdropWhile_concat_pos _ _ _ (by decide)]
    cases text using List.reverseRecOn with
    | nil => rfl
    | append_singleton front last =>
        obtain ⟨-, notNewline, notReturn⟩ :=
          oneLine last (List.mem_append.mpr (Or.inr (List.mem_singleton_self _)))
        refine List.rdropWhile_concat_neg _ _ _ ?_
        rw [decide_eq_false notNewline, decide_eq_false notReturn]
        decide
  have fits : ¬ (text ++ [newline]).length ≥ strMax := by
    rw [List.length_append, List.length_singleton]
    omega
  unfold saveLine
  rw [cstring_of_notMem clean]
  dsimp only
  rw [if_neg fits, kept]
  rfl

/-! ## Looking ahead -/

def Ahead (tokens : List Token) (tpos : Nat) (ts : List Token) : Prop := tokens.drop tpos = ts

theorem Ahead.getD {tokens ts : List Token} {tpos : Nat} (ahead : Ahead tokens tpos ts) :
    tokens.getD tpos .err = ts.head?.getD .err := by
  rw [List.getD_eq_getElem?_getD, ← List.head?_drop, ahead]

theorem Ahead.next {tokens ts : List Token} {tpos : Nat} {t : Token}
    (ahead : Ahead tokens tpos (t :: ts)) : Ahead tokens (tpos + 1) ts := by
  have rest := congrArg List.tail ahead
  rwa [List.tail_drop, List.tail_cons] at rest

theorem Ahead.behind {tokens read ts : List Token} {tpos : Nat}
    (ahead : Ahead tokens tpos (read ++ ts)) : Ahead tokens (tpos + read.length) ts := by
  have rest := congrArg (List.drop read.length) ahead
  rwa [List.drop_drop, List.drop_left] at rest

def moved (s : Assembler) (code : Nat → Byte) (tpos : Nat) : Assembler :=
  { s with code := code, tpos := tpos }

theorem Ahead.token {s : Assembler} {t : Token} {ts : List Token} {tpos : Nat}
    (ahead : Ahead s.tokens tpos (t :: ts)) : s.token tpos = t := ahead.getD

/-- The labels that are used are in the table. -/
def Resolves (s : Assembler) (resolve : Text → Int) (names : List Text) : Prop :=
  ∀ name ∈ names,
    (s.symbolTable.find? fun symbol => symbol.1 = name).map Prod.snd = some (resolve name)

theorem Resolves.findSymbol {s : Assembler} {resolve : Text → Int} {names : List Text}
    (resolves : s.Resolves resolve names) {name : Text} (used : name ∈ names) :
    s.findSymbol name = (s, resolve name) := by
  obtain ⟨symbol, found, address⟩ := Option.map_eq_some_iff.mp (resolves name used)
  unfold Assembler.findSymbol
  rw [found]
  exact congrArg (Prod.mk s) address

/-! ## Operands -/

section Operands

variable {s : Assembler} {tpos : Nat} {ts : List Token} {resolve : Text → Int}
  (code : Nat → Byte) (codepos : Nat)

theorem findRegister_regName : ∀ reg : Fin 8, findRegister (regName reg) = reg.val := by
  decide +kernel

def withReg (code : Nat → Byte) (codepos hi : Nat) (reg : Fin 8) : Nat → Byte :=
  Function.update code codepos
    (if hi ≠ 0 then (code codepos &&& (0x0F : Byte)) ||| (BitVec.ofNat 8 reg.val <<< 4)
    else (code codepos &&& 0xF0) ||| BitVec.ofNat 8 reg.val)

theorem getReg_moved {reg : Fin 8} (ahead : Ahead s.tokens tpos (.reg (regName reg) :: ts))
    (hi : Nat) :
    (s.moved code tpos).getReg codepos hi = s.moved (withReg code codepos hi reg) (tpos + 1) := by
  have token : (s.moved code tpos).token (s.moved code tpos).tpos = .reg (regName reg) :=
    ahead.token
  unfold Assembler.getReg
  rw [token]
  dsimp only
  rw [findRegister_regName]
  rfl

theorem putNum_apply (val : Int) {bytes : Nat} (small : bytes ≤ 4) (place : Nat) :
    putNum code codepos val bytes place =
      if codepos ≤ place ∧ place < codepos + bytes then
        byteAt (BitVec.ofInt 32 val) (place - codepos)
      else code place := by
  induction bytes with
  | zero =>
      rw [if_neg (by omega)]
      rfl
  | succ bytes ih =>
      have step : putNum code codepos val (bytes + 1) =
          Function.update (putNum code codepos val bytes) (codepos + bytes)
            (((BitVec.ofInt 32 val).sshiftRight (8 * bytes) &&& 0xFF).setWidth 8) := by
        unfold putNum
        rw [List.range_succ, List.foldl_append]
        rfl
      rw [step]
      by_cases last : place = codepos + bytes
      · rw [last, Function.update_self, if_pos (by omega), Nat.add_sub_cancel_left,
          Isa.lowByte_sshiftRight _ (by omega)]
      · rw [Function.update_of_ne last, ih (by omega)]
        congr 1
        exact propext ⟨fun inside => by omega, fun inside => by omega⟩

theorem getNum_moved {c : Constant} (ahead : Ahead s.tokens tpos (c.token :: ts))
    (resolves : s.Resolves resolve c.names) (bytes : Nat) :
    (s.moved code tpos).getNum codepos bytes =
      s.moved (putNum code codepos (c.value resolve) bytes) (tpos + 1) := by
  have token : (s.moved code tpos).token (s.moved code tpos).tpos = c.token := ahead.token
  unfold Assembler.getNum
  rw [token]
  cases c with
  | number value => rfl
  | label name =>
      have same : (s.moved code tpos).Resolves resolve [name] := resolves
      dsimp only [Constant.token]
      rw [same.findSymbol (List.mem_singleton_self name)]
      rfl

/-- The tokens go on with a comma, or the line ends. -/
def AtComma (ts : List Token) : Prop := ts = [] ∨ ∃ rest, ts = .punct (ch ',') :: rest

theorem token_atComma (ahead : Ahead s.tokens tpos ts) (comma : AtComma ts) :
    s.token tpos = .err ∨ s.token tpos = .punct (ch ',') := by
  rcases comma with rfl | ⟨rest, rfl⟩
  · exact Or.inl ahead.getD
  · exact Or.inr ahead.token

theorem displacement_moved {a : Address} (ahead : Ahead s.tokens tpos (a.tokens ++ ts))
    (resolves : s.Resolves resolve a.names) (comma : AtComma ts) :
    (s.moved code tpos).displacement =
      (s.moved code (tpos + a.displacement.toList.length),
        a.displacement.elim 0 (Constant.value resolve)) := by
  obtain ⟨displacement, base⟩ := a
  have here : (s.moved code tpos).token (s.moved code tpos).tpos = s.token tpos := rfl
  unfold Assembler.displacement
  rw [here]
  cases displacement with
  | none =>
      cases base with
      | none =>
          rcases token_atComma ahead comma with token | token
          · rw [token]; rfl
          · rw [token]; rfl
      | some reg =>
          have token : s.token tpos = .punct (ch '(') := ahead.token
          rw [token]
          rfl
  | some c =>
      have token : s.token tpos = c.token := ahead.token
      rw [token]
      cases c with
      | number value => rfl
      | label name =>
          have same : (s.moved code (tpos + 1)).Resolves resolve [name] := resolves
          exact same.findSymbol (List.mem_singleton_self name)

theorem baseRegister_paren {sval : Text} (opens : s.token s.tpos = .punct (ch '('))
    (register : s.token (s.tpos + 1) = .reg sval)
    (closes : s.token (s.tpos + 1 + 1) = .punct (ch ')')) :
    s.baseRegister =
      ({ s with tpos := s.tpos + 1 + 1 + 1 }, some (BitVec.ofNat 8 (findRegister sval))) := by
  have second : { s with tpos := s.tpos + 1 }.token (s.tpos + 1) = .reg sval := register
  have third : { s with tpos := s.tpos + 1 + 1 }.token (s.tpos + 1 + 1) = .punct (ch ')') := closes
  unfold Assembler.baseRegister
  rw [if_pos opens]
  dsimp only
  rw [second]
  dsimp only
  rw [third]
  dsimp only
  rw [if_pos rfl]

theorem baseRegister_moved {base : Option (Fin 8)}
    (ahead : Ahead s.tokens tpos (Address.tokens ⟨none, base⟩ ++ ts)) (comma : AtComma ts) :
    (s.moved code tpos).baseRegister =
      (s.moved code (tpos + (Address.tokens ⟨none, base⟩).length),
        some (base.elim 0xF fun reg => BitVec.ofNat 8 reg.val)) := by
  cases base with
  | none =>
      have other : (s.moved code tpos).token tpos ≠ .punct (ch '(') := by
        change s.token tpos ≠ _
        rcases token_atComma ahead comma with token | token
        · rw [token]; decide
        · rw [token]; decide
      exact if_neg other
  | some reg =>
      have opens : (s.moved code tpos).token tpos = .punct (ch '(') := ahead.token
      have register : (s.moved code tpos).token (tpos + 1) = .reg (regName reg) := ahead.next.token
      have closes : (s.moved code tpos).token (tpos + 1 + 1) = .punct (ch ')') :=
        ahead.next.next.token
      rw [baseRegister_paren opens register closes, findRegister_regName]
      rfl

def withMem (code : Nat → Byte) (codepos : Nat) (resolve : Text → Int) (a : Address) :
    Nat → Byte :=
  putNum
    (Function.update code codepos
      ((code codepos &&& 0xF0) ||| ((a.base.elim 0xF fun reg => BitVec.ofNat 8 reg.val) &&& 0xF)))
    (codepos + 1) (a.displacement.elim 0 (Constant.value resolve)) 4

theorem getMem_moved {a : Address} (ahead : Ahead s.tokens tpos (a.tokens ++ ts))
    (resolves : s.Resolves resolve a.names) (comma : AtComma ts) :
    (s.moved code tpos).getMem codepos =
      s.moved (withMem code codepos resolve a) (tpos + a.tokens.length) := by
  have rest : Ahead s.tokens (tpos + a.displacement.toList.length)
      (Address.tokens ⟨none, a.base⟩ ++ ts) := by
    obtain ⟨displacement, base⟩ := a
    cases displacement with
    | none => exact ahead
    | some c => exact ahead.next
  have length : a.displacement.toList.length + (Address.tokens ⟨none, a.base⟩).length =
      a.tokens.length := by
    obtain ⟨displacement, base⟩ := a
    cases displacement with
    | none => exact Nat.zero_add _
    | some c => exact Nat.add_comm 1 _
  unfold Assembler.getMem
  rw [displacement_moved code ahead resolves comma]
  dsimp only
  rw [baseRegister_moved code rest comma, ← length, ← Nat.add_assoc]
  rfl

end Operands

end Assembler

/-! ## Instructions -/

/-- The entry of a statement in the table. -/
def Statement.row (st : Statement) : Instr :=
  match st with
  | .nop | .halt | .ret | .leave => ⟨st.mnemonic, st.opcode, 1, .noArg, 0, 0, .noArg, 0, 0⟩
  | .rrmovl _ _ _ | .opl _ _ _ => ⟨st.mnemonic, st.opcode, 2, .rArg, 1, 1, .rArg, 1, 0⟩
  | .irmovl _ _ | .iaddl _ _ => ⟨st.mnemonic, st.opcode, 6, .iArg, 2, 4, .rArg, 1, 0⟩
  | .rmmovl _ _ => ⟨st.mnemonic, st.opcode, 6, .rArg, 1, 1, .mArg, 1, 0⟩
  | .mrmovl _ _ => ⟨st.mnemonic, st.opcode, 6, .mArg, 1, 0, .rArg, 1, 1⟩
  | .jxx _ _ | .call _ => ⟨st.mnemonic, st.opcode, 5, .iArg, 1, 4, .noArg, 0, 0⟩
  | .pushl _ | .popl _ => ⟨st.mnemonic, st.opcode, 2, .rArg, 1, 1, .noArg, 0, 0⟩
  | .data width _ => ⟨st.mnemonic, 0, width.bytes, .iArg, 0, width.bytes, .noArg, 0, 0⟩

theorem findInstr_mnemonic (st : Statement) : findInstr st.mnemonic = some st.row := by
  have moves : ∀ condition : Fin 7, findInstr (Statement.rrmovl condition 0 0).mnemonic =
      some (Statement.rrmovl condition 0 0).row := by decide +kernel
  have operations : ∀ operation : Fin 4, findInstr (Statement.opl operation 0 0).mnemonic =
      some (Statement.opl operation 0 0).row := by decide +kernel
  have jumps : ∀ condition : Fin 7, findInstr (Statement.jxx condition (.number 0)).mnemonic =
      some (Statement.jxx condition (.number 0)).row := by decide +kernel
  cases st with
  | rrmovl condition rA rB => exact moves condition
  | opl operation rA rB => exact operations operation
  | jxx condition target => exact jumps condition
  | data width constant => cases width <;> rfl
  | _ => rfl

theorem register_high : ∀ rA : Fin 8,
    (hpack 15 15 &&& (0x0F : Byte)) ||| (BitVec.ofNat 8 rA.val <<< 4) =
      joinNibbles (Statement.nibble rA) 0xF := by
  decide +kernel

theorem register_low : ∀ rB : Fin 8,
    (hpack 15 15 &&& (0xF0 : Byte)) ||| BitVec.ofNat 8 rB.val =
      joinNibbles 0xF (Statement.nibble rB) := by
  decide +kernel

theorem register_both : ∀ rA rB : Fin 8,
    (((hpack 15 15 &&& (0x0F : Byte)) ||| (BitVec.ofNat 8 rA.val <<< 4)) &&& 0xF0) |||
        BitVec.ofNat 8 rB.val =
      joinNibbles (Statement.nibble rA) (Statement.nibble rB) := by
  decide +kernel

/-- What a register and the base of a memory reference leave, in either order. -/
theorem register_base (rA : Fin 8) (a : Address) :
    (((hpack 15 15 &&& (0x0F : Byte)) ||| (BitVec.ofNat 8 rA.val <<< 4)) &&& 0xF0) |||
        ((a.base.elim 0xF fun reg => BitVec.ofNat 8 reg.val) &&& 0xF) =
      joinNibbles (Statement.nibble rA) a.nibble ∧
    (((hpack 15 15 &&& (0xF0 : Byte)) |||
        ((a.base.elim 0xF fun reg => BitVec.ofNat 8 reg.val) &&& 0xF)) &&& (0x0F : Byte)) |||
        (BitVec.ofNat 8 rA.val <<< 4) =
      joinNibbles (Statement.nibble rA) a.nibble := by
  obtain ⟨displacement, base⟩ := a
  cases base with
  | none =>
      revert rA
      change ∀ rA : Fin 8, _ = joinNibbles (Statement.nibble rA) 0xF ∧
        _ = joinNibbles (Statement.nibble rA) 0xF
      dsimp only [Option.elim_none]
      decide +kernel
  | some reg =>
      revert rA reg
      change ∀ rA reg : Fin 8, _ = joinNibbles (Statement.nibble rA) (Statement.nibble reg) ∧
        _ = joinNibbles (Statement.nibble rA) (Statement.nibble reg)
      dsimp only [Option.elim_some]
      decide +kernel

namespace Assembler

def opened (s : Assembler) (instr : Instr) : Nat → Byte :=
  Function.update (Function.update s.code 0 instr.code) 1 (hpack Isa.regNone Isa.regNone)

theorem encode_one {s : Assembler} {instr : Instr} {code : Nat → Byte} {tpos : Nat} (pos : Int)
    (first : (s.moved (s.opened instr) s.tpos).getArg instr.arg1 instr.arg1pos instr.arg1hi =
      s.moved code tpos)
    (noSecond : instr.arg2 = .noArg) :
    s.encode instr pos = ((s.moved code tpos).printCode pos).startLine := by
  have opened : s.encode instr pos = (s.moved code tpos).encodeSecond instr pos := by
    rw [← first]
    rfl
  rw [opened]
  exact if_neg (not_not.mpr noSecond)

theorem encode_two {s : Assembler} {instr : Instr} {code other : Nat → Byte} {tpos last : Nat}
    {ts : List Token} (pos : Int)
    (first : (s.moved (s.opened instr) s.tpos).getArg instr.arg1 instr.arg1pos instr.arg1hi =
      s.moved code tpos)
    (comma : Ahead s.tokens tpos (.punct (ch ',') :: ts)) (hasSecond : instr.arg2 ≠ .noArg)
    (second : (s.moved code (tpos + 1)).getArg instr.arg2 instr.arg2pos instr.arg2hi =
      s.moved other last) :
    s.encode instr pos = ((s.moved other last).printCode pos).startLine := by
  have opened : s.encode instr pos = (s.moved code tpos).encodeSecond instr pos := by
    rw [← first]
    rfl
  have separated : ¬ (s.moved code tpos).token tpos ≠ .punct (ch ',') := not_not.mpr comma.token
  rw [opened, ← second]
  exact (if_pos hasSecond).trans (if_neg separated)

def coded (code : Nat → Byte) (count : Nat) : List Byte := (List.range count).map code

theorem coded_succ (code : Nat → Byte) (count : Nat) :
    coded code (count + 1) = coded code count ++ [code count] := by
  rw [coded, List.range_succ, List.map_append]
  rfl

theorem length_coded (code : Nat → Byte) (count : Nat) : (coded code count).length = count := by
  rw [coded, List.length_map, List.length_range]

theorem putNum_bytes (code : Nat → Byte) (codepos : Nat) (val : Int) {bytes : Nat}
    (small : bytes ≤ 4) :
    (List.range bytes).map (fun i => putNum code codepos val bytes (codepos + i)) =
      (littleEndian (BitVec.ofInt 32 val)).take bytes := by
  have each : (List.range bytes).map (fun i => putNum code codepos val bytes (codepos + i)) =
      (List.range bytes).map (byteAt (BitVec.ofInt 32 val)) := by
    refine List.map_congr_left fun i member => ?_
    have below := List.mem_range.mp member
    rw [putNum_apply code codepos val small, if_pos (by omega), Nat.add_sub_cancel_left]
  have all : littleEndian (BitVec.ofInt 32 val) =
      (List.range 4).map (byteAt (BitVec.ofInt 32 val)) := rfl
  rw [each, all, ← List.map_take, List.take_range, Nat.min_eq_left small]

theorem withMem_bytes (code : Nat → Byte) (codepos : Nat) (resolve : Text → Int) (a : Address) :
    (List.range 4).map (fun i => withMem code codepos resolve a (codepos + 1 + i)) =
      littleEndian (a.word resolve) :=
  putNum_bytes _ _ _ (Nat.le_refl 4)

/-! ## The shapes of instructions -/

theorem rArg_ne : ArgType.rArg ≠ ArgType.noArg := by decide

theorem mArg_ne : ArgType.mArg ≠ ArgType.noArg := by decide

/-- The second pass puts these bytes together for an instruction, and prints its line. -/
def Encodes (s : Assembler) (instr : Instr) (pos : Int) (bytes : List Byte) : Prop :=
  ∃ code tpos, s.encode instr pos = ((s.moved code tpos).printCode pos).startLine ∧
    coded code bytes.length = bytes

section

variable {s : Assembler} {resolve : Text → Int} {rA rB : Fin 8} {constant : Constant}
  {address : Address} (name : Text) (opcode : Byte) (pos : Int)

theorem encodes_bare : s.Encodes ⟨name, opcode, 1, .noArg, 0, 0, .noArg, 0, 0⟩ pos [opcode] :=
  ⟨_, s.tpos, encode_one pos rfl rfl, rfl⟩

theorem encodes_reg (ahead : Ahead s.tokens s.tpos [.reg (regName rA)]) :
    s.Encodes ⟨name, opcode, 2, .rArg, 1, 1, .noArg, 0, 0⟩ pos
      [opcode, joinNibbles (Statement.nibble rA) 0xF] := by
  refine ⟨_, _, encode_one pos (getReg_moved _ 1 ahead 1) rfl, ?_⟩
  exact congrArg (fun byte => [opcode, byte]) (register_high rA)

theorem encodes_regs
    (ahead : Ahead s.tokens s.tpos [.reg (regName rA), .punct (ch ','), .reg (regName rB)]) :
    s.Encodes ⟨name, opcode, 2, .rArg, 1, 1, .rArg, 1, 0⟩ pos
      [opcode, joinNibbles (Statement.nibble rA) (Statement.nibble rB)] := by
  refine ⟨_, _, encode_two pos (getReg_moved _ 1 ahead 1) ahead.next rArg_ne
    (getReg_moved _ 1 ahead.next.next 0), ?_⟩
  exact congrArg (fun byte => [opcode, byte]) (register_both rA rB)

theorem encodes_constant (ahead : Ahead s.tokens s.tpos [constant.token])
    (resolves : s.Resolves resolve constant.names) :
    s.Encodes ⟨name, opcode, 5, .iArg, 1, 4, .noArg, 0, 0⟩ pos
      (opcode :: littleEndian (constant.word resolve)) := by
  refine ⟨_, _, encode_one pos (getNum_moved _ 1 ahead resolves 4) rfl, ?_⟩
  exact List.cons_eq_cons.mpr ⟨rfl, putNum_bytes _ 1 _ (Nat.le_refl 4)⟩

theorem encodes_constantReg
    (ahead : Ahead s.tokens s.tpos [constant.token, .punct (ch ','), .reg (regName rB)])
    (resolves : s.Resolves resolve constant.names) :
    s.Encodes ⟨name, opcode, 6, .iArg, 2, 4, .rArg, 1, 0⟩ pos
      (opcode :: joinNibbles 0xF (Statement.nibble rB) ::
        littleEndian (constant.word resolve)) := by
  have word := putNum_bytes (s.opened ⟨name, opcode, 6, .iArg, 2, 4, .rArg, 1, 0⟩) 2
    (constant.value resolve) (Nat.le_refl 4)
  refine ⟨_, _, encode_two pos (getNum_moved _ 2 ahead resolves 4) ahead.next rArg_ne
    (getReg_moved _ 1 ahead.next.next 0), ?_⟩
  exact List.cons_eq_cons.mpr ⟨rfl, List.cons_eq_cons.mpr ⟨register_low rB, word⟩⟩

theorem encodes_regMem
    (ahead : Ahead s.tokens s.tpos (.reg (regName rA) :: .punct (ch ',') :: address.tokens))
    (resolves : s.Resolves resolve address.names) :
    s.Encodes ⟨name, opcode, 6, .rArg, 1, 1, .mArg, 1, 0⟩ pos
      (opcode :: joinNibbles (Statement.nibble rA) address.nibble ::
        littleEndian (address.word resolve)) := by
  have addressAhead : Ahead s.tokens (s.tpos + 1 + 1) (address.tokens ++ []) := by
    rw [List.append_nil]
    exact ahead.next.next
  have word := withMem_bytes
    (withReg (s.opened ⟨name, opcode, 6, .rArg, 1, 1, .mArg, 1, 0⟩) 1 1 rA) 1 resolve address
  refine ⟨_, _, encode_two pos (getReg_moved _ 1 ahead 1) ahead.next mArg_ne
    (getMem_moved _ 1 addressAhead resolves (Or.inl rfl)), ?_⟩
  exact List.cons_eq_cons.mpr ⟨rfl, List.cons_eq_cons.mpr ⟨(register_base rA address).1, word⟩⟩

theorem encodes_memReg
    (ahead : Ahead s.tokens s.tpos (address.tokens ++ [.punct (ch ','), .reg (regName rA)]))
    (resolves : s.Resolves resolve address.names) :
    s.Encodes ⟨name, opcode, 6, .mArg, 1, 0, .rArg, 1, 1⟩ pos
      (opcode :: joinNibbles (Statement.nibble rA) address.nibble ::
        littleEndian (address.word resolve)) := by
  have word := withMem_bytes (s.opened ⟨name, opcode, 6, .mArg, 1, 0, .rArg, 1, 1⟩) 1 resolve
    address
  refine ⟨_, _, encode_two pos (getMem_moved _ 1 ahead resolves (Or.inr ⟨_, rfl⟩)) ahead.behind
    rArg_ne (getReg_moved _ 1 ahead.behind.next 1), ?_⟩
  exact List.cons_eq_cons.mpr ⟨rfl, List.cons_eq_cons.mpr ⟨(register_base rA address).2, word⟩⟩

theorem encodes_data {width : Width} (ahead : Ahead s.tokens s.tpos [constant.token])
    (resolves : s.Resolves resolve constant.names) :
    s.Encodes ⟨name, opcode, width.bytes, .iArg, 0, width.bytes, .noArg, 0, 0⟩ pos
      ((littleEndian (constant.word resolve)).take width.bytes) := by
  have small : width.bytes ≤ 4 := by cases width <;> decide
  have bytes := putNum_bytes
    (s.opened ⟨name, opcode, width.bytes, .iArg, 0, width.bytes, .noArg, 0, 0⟩) 0
    (constant.value resolve) small
  simp only [Nat.zero_add] at bytes
  have length : ((littleEndian (constant.word resolve)).take width.bytes).length =
      width.bytes := by
    cases width <;> rfl
  refine ⟨_, _, encode_one pos (getNum_moved _ 0 ahead resolves width.bytes) rfl, ?_⟩
  rw [length]
  exact bytes

/-- The code of a statement, and its line. -/
theorem encodes_row {st : Statement} (ahead : Ahead s.tokens s.tpos st.operands)
    (resolves : s.Resolves resolve st.names) : s.Encodes st.row pos (st.bytes resolve) := by
  cases st with
  | nop => exact encodes_bare _ _ pos
  | halt => exact encodes_bare _ _ pos
  | ret => exact encodes_bare _ _ pos
  | leave => exact encodes_bare _ _ pos
  | rrmovl condition rA rB => exact encodes_regs _ _ pos ahead
  | irmovl constant rB => exact encodes_constantReg _ _ pos ahead resolves
  | rmmovl rA address => exact encodes_regMem _ _ pos ahead resolves
  | mrmovl address rA => exact encodes_memReg _ _ pos ahead resolves
  | opl operation rA rB => exact encodes_regs _ _ pos ahead
  | jxx condition target => exact encodes_constant _ _ pos ahead resolves
  | call target => exact encodes_constant _ _ pos ahead resolves
  | pushl rA => exact encodes_reg _ _ pos ahead
  | popl rA => exact encodes_reg _ _ pos ahead
  | iaddl constant rB => exact encodes_constantReg _ _ pos ahead resolves
  | data width constant => exact encodes_data _ _ pos ahead resolves

end

end Assembler

end Yess.Yas
