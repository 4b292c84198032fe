import Mathlib.Data.List.DropRight
import Yess.Isa.Step
import Yess.Lib.CString

/-!
# The assembler

`yas.c` and the tables of `isa.c`: the lexer hands over the tokens of a line, and
`finish_line` puts together its code and prints it.  The file is read twice, once
for the labels and once for the code.
-/

namespace Yess.Yas

open Lib.CString Isa

/-! ## Tables -/

/-- `arg_t` -/
inductive ArgType where
  | rArg | mArg | iArg | noArg
  deriving DecidableEq, Repr

/-- `instr_t` -/
structure Instr where
  name : Text
  code : Byte
  bytes : Nat
  arg1 : ArgType
  arg1pos : Nat
  arg1hi : Nat
  arg2 : ArgType
  arg2pos : Nat
  arg2hi : Nat
  deriving DecidableEq

def hpack (hi lo : Nat) : Byte := BitVec.ofNat 8 (((hi &&& 0xF) <<< 4) ||| (lo &&& 0xF))

abbrev iHalt : Nat := 0
abbrev iNop : Nat := 1
abbrev iRrmovl : Nat := 2
abbrev iIrmovl : Nat := 3
abbrev iRmmovl : Nat := 4
abbrev iMrmovl : Nat := 5
abbrev iAlu : Nat := 6
abbrev iJmp : Nat := 7
abbrev iCall : Nat := 8
abbrev iRet : Nat := 9
abbrev iPushl : Nat := 10
abbrev iPopl : Nat := 11
abbrev iIaddl : Nat := 12
abbrev iLeave : Nat := 13
abbrev iPop2 : Nat := 14

abbrev fNone : Nat := 0

abbrev cYes : Nat := 0
abbrev cLe : Nat := 1
abbrev cL : Nat := 2
abbrev cE : Nat := 3
abbrev cNe : Nat := 4
abbrev cGe : Nat := 5
abbrev cG : Nat := 6

def instructionSet : List Instr :=
  [⟨ascii "nop", hpack iNop fNone, 1, .noArg, 0, 0, .noArg, 0, 0⟩,
    ⟨ascii "halt", hpack iHalt fNone, 1, .noArg, 0, 0, .noArg, 0, 0⟩,
    ⟨ascii "rrmovl", hpack iRrmovl fNone, 2, .rArg, 1, 1, .rArg, 1, 0⟩,
    ⟨ascii "cmovle", hpack iRrmovl cLe, 2, .rArg, 1, 1, .rArg, 1, 0⟩,
    ⟨ascii "cmovl", hpack iRrmovl cL, 2, .rArg, 1, 1, .rArg, 1, 0⟩,
    ⟨ascii "cmove", hpack iRrmovl cE, 2, .rArg, 1, 1, .rArg, 1, 0⟩,
    ⟨ascii "cmovne", hpack iRrmovl cNe, 2, .rArg, 1, 1, .rArg, 1, 0⟩,
    ⟨ascii "cmovge", hpack iRrmovl cGe, 2, .rArg, 1, 1, .rArg, 1, 0⟩,
    ⟨ascii "cmovg", hpack iRrmovl cG, 2, .rArg, 1, 1, .rArg, 1, 0⟩,
    ⟨ascii "irmovl", hpack iIrmovl fNone, 6, .iArg, 2, 4, .rArg, 1, 0⟩,
    ⟨ascii "rmmovl", hpack iRmmovl fNone, 6, .rArg, 1, 1, .mArg, 1, 0⟩,
    ⟨ascii "mrmovl", hpack iMrmovl fNone, 6, .mArg, 1, 0, .rArg, 1, 1⟩,
    ⟨ascii "addl", hpack iAlu aAdd, 2, .rArg, 1, 1, .rArg, 1, 0⟩,
    ⟨ascii "subl", hpack iAlu aSub, 2, .rArg, 1, 1, .rArg, 1, 0⟩,
    ⟨ascii "andl", hpack iAlu aAnd, 2, .rArg, 1, 1, .rArg, 1, 0⟩,
    ⟨ascii "xorl", hpack iAlu aXor, 2, .rArg, 1, 1, .rArg, 1, 0⟩,
    ⟨ascii "jmp", hpack iJmp cYes, 5, .iArg, 1, 4, .noArg, 0, 0⟩,
    ⟨ascii "jle", hpack iJmp cLe, 5, .iArg, 1, 4, .noArg, 0, 0⟩,
    ⟨ascii "jl", hpack iJmp cL, 5, .iArg, 1, 4, .noArg, 0, 0⟩,
    ⟨ascii "je", hpack iJmp cE, 5, .iArg, 1, 4, .noArg, 0, 0⟩,
    ⟨ascii "jne", hpack iJmp cNe, 5, .iArg, 1, 4, .noArg, 0, 0⟩,
    ⟨ascii "jge", hpack iJmp cGe, 5, .iArg, 1, 4, .noArg, 0, 0⟩,
    ⟨ascii "jg", hpack iJmp cG, 5, .iArg, 1, 4, .noArg, 0, 0⟩,
    ⟨ascii "call", hpack iCall fNone, 5, .iArg, 1, 4, .noArg, 0, 0⟩,
    ⟨ascii "ret", hpack iRet fNone, 1, .noArg, 0, 0, .noArg, 0, 0⟩,
    ⟨ascii "pushl", hpack iPushl fNone, 2, .rArg, 1, 1, .noArg, 0, 0⟩,
    ⟨ascii "popl", hpack iPopl fNone, 2, .rArg, 1, 1, .noArg, 0, 0⟩,
    ⟨ascii "iaddl", hpack iIaddl fNone, 6, .iArg, 2, 4, .rArg, 1, 0⟩,
    ⟨ascii "leave", hpack iLeave fNone, 1, .noArg, 0, 0, .noArg, 0, 0⟩,
    ⟨ascii "pop2", hpack iPop2 fNone, 0, .noArg, 0, 0, .noArg, 0, 0⟩,
    ⟨ascii ".byte", 0x00, 1, .iArg, 0, 1, .noArg, 0, 0⟩,
    ⟨ascii ".word", 0x00, 2, .iArg, 0, 2, .noArg, 0, 0⟩,
    ⟨ascii ".long", 0x00, 4, .iArg, 0, 4, .noArg, 0, 0⟩]

def badInstr : Instr := ⟨ascii "XXX", 0, 0, .noArg, 0, 0, .noArg, 0, 0⟩

def findInstr (name : Text) : Option Instr := instructionSet.find? fun instr => instr.name = name

/-- The names in `reg_table`. -/
def regNames : List Text :=
  [ascii "%eax", ascii "%ecx", ascii "%edx", ascii "%ebx", ascii "%esp", ascii "%ebp",
    ascii "%esi", ascii "%edi", ascii "----", ascii "----", ascii "----", ascii "----",
    ascii "----", ascii "----", ascii "----", ascii "----", ascii "----"]

def findRegister (name : Text) : Nat :=
  match ((regNames.zip regTable).take regNone).find? fun entry => entry.1 = name with
  | some entry => entry.2
  | none => regErr

/-! ## Digits and bytes -/

/-- The `len` least significant hexadecimal digits of a value. -/
def hexstuff (value : Int) (len : Nat) : Text :=
  ((List.range len).map fun i =>
    hexDigit ((BitVec.ofInt 32 value).sshiftRight (4 * i) &&& 0xF).toNat).reverse

def overwrite (text : Text) (dest : Nat) (digits : Text) : Text :=
  text.take dest ++ digits ++ text.drop (dest + digits.length)

def putNum (code : Nat → Byte) (codepos : Nat) (val : Int) (bytes : Nat) :
    Nat → Byte :=
  (List.range bytes).foldl
    (fun code i => Function.update code (codepos + i)
      (((BitVec.ofInt 32 val).sshiftRight (8 * i) &&& 0xFF).setWidth 8)) code

/-! ## State -/

/-- The value of an `int` expression, which wraps. -/
def wrapInt (value : Int) : Int := (BitVec.ofInt 32 value).toInt

/-- `token_rec`, with the value that its type has. -/
inductive Token where
  | ident (sval : Text)
  | num (ival : Int)
  | reg (sval : Text)
  | instr (sval : Text)
  | punct (cval : Byte)
  | err
  deriving DecidableEq

/-- The length of the string in a token, with its NUL. -/
def Token.size : Token → Nat
  | .ident sval | .reg sval | .instr sval => sval.length + 1
  | _ => 0

/-- `TOK_PER_LINE`, `STRMAX` and `STAB`: the sizes of the arrays. -/
abbrev tokPerLine : Nat := 12
abbrev strMax : Nat := 4096
abbrev stab : Nat := 1000

/-- The variables of the assembler.  `tokens` are the first `tcount` of the array.
`overrun` tells that an array was written past its end, and `underrun` that the byte
before `input_line` was read: it is taken to be no terminator. -/
structure Assembler where
  pass : Nat
  lineno : Word
  bytepos : Int
  errorMode : Bool
  hitError : Bool
  tokens : List Token
  tpos : Nat
  strpos : Nat
  inputLine : Text
  code : Nat → Byte
  bcount : Nat
  symbolTable : List (Text × Int)
  outfile : Text
  stderr : Text
  overrun : Bool
  underrun : Bool

namespace Assembler

/-- A token of the line; there is an error token behind the last one. -/
def token (s : Assembler) (place : Nat) : Token := s.tokens.getD place .err

def fail (s : Assembler) (message : String) : Assembler :=
  { s with
    stderr :=
      if s.errorMode then s.stderr
      else
        s.stderr ++ ascii "Error on line " ++ ascii (toString s.lineno.toInt) ++ ascii ": " ++
          ascii message ++ [newline] ++ ascii "Line " ++ ascii (toString s.lineno.toInt) ++
          ascii ", Byte 0x" ++ formatHex 4 (BitVec.ofInt 32 s.bytepos).toNat ++ ascii ": " ++
          s.inputLine ++ [newline]
    errorMode := true
    hitError := true }

/-- Keep the line without its terminators.  The loop that removes them goes on before
the array when there is nothing else. -/
def saveLine (s : Assembler) (line : Text) : Assembler :=
  let line := cstring line
  let s := if line.length ≥ strMax then { s.fail "Input Line too long" with overrun := true } else s
  let kept := line.rdropWhile fun c => c = newline || c = 0x0d
  { s with inputLine := kept, underrun := s.underrun || decide (kept = []) }

def startLine (s : Assembler) : Assembler :=
  { s with errorMode := false, tpos := 0, tokens := [], bcount := 0, strpos := 0 }

def addToken (s : Assembler) (t : Token) : Assembler :=
  let s := if s.tokens = [] then s.startLine else s
  if s.tpos ≥ tokPerLine - 1 then s.fail "Line too long"
  else if s.strpos + t.size > strMax ∧ t.size ≠ 0 then s.fail "Line too long"
  else
    { s with
      strpos := s.strpos + t.size
      tokens := s.tokens ++ [t]
      overrun := s.overrun || decide (s.tokens.length ≥ tokPerLine) }

/-! ## Symbols -/

def addSymbol (s : Assembler) (name : Text) (p : Int) : Assembler :=
  { s with
    symbolTable := s.symbolTable ++ [(name, p)]
    overrun := s.overrun || decide (s.symbolTable.length ≥ stab) }

def findSymbol (s : Assembler) (name : Text) : Assembler × Int :=
  match s.symbolTable.find? fun symbol => symbol.1 = name with
  | some symbol => (s, symbol.2)
  | none => (s.fail "Can't find label", -1)

/-! ## Printing -/

/-- Print a line of the object file: the code, if there is any, and the line. -/
def printCode (s : Assembler) (pos : Int) : Assembler :=
  let outstring :=
    if s.tokens ≠ [] then
      (List.range s.bcount).foldl
        (fun outstring i => overwrite outstring (9 + 2 * i) (hexstuff (s.code i).toNat 2))
        (overwrite (ascii "  0x000:              | ") 4 (hexstuff pos 3))
    else ascii "                      | "
  { s with outfile := s.outfile ++ outstring ++ s.inputLine ++ [newline] }

/-! ## Arguments -/

def getReg (s : Assembler) (codepos hi : Nat) : Assembler :=
  match s.token s.tpos with
  | .reg sval =>
      let rval : Byte := BitVec.ofNat 8 (findRegister sval)
      let c := s.code codepos
      let c := if hi ≠ 0 then (c &&& (0x0F : Byte)) ||| (rval <<< 4) else (c &&& 0xF0) ||| rval
      { s with code := Function.update s.code codepos c, tpos := s.tpos + 1 }
  | _ => s.fail "Expecting Register ID"

def getNum (s : Assembler) (codepos bytes : Nat) : Assembler :=
  let put (s : Assembler) (val : Int) : Assembler :=
    { s with code := putNum s.code codepos val bytes, tpos := s.tpos + 1 }
  match s.token s.tpos with
  | .num ival => put s ival
  | .ident sval =>
      let found := s.findSymbol sval
      put found.1 found.2
  | _ => s.fail "Number Expected"

/-- The optional displacement of a memory reference. -/
def displacement (s : Assembler) : Assembler × Int :=
  match s.token s.tpos with
  | .num ival => ({ s with tpos := s.tpos + 1 }, ival)
  | .ident sval => { s with tpos := s.tpos + 1 }.findSymbol sval
  | _ => (s, 0)

/-- The optional register of a memory reference; `none` for an error. -/
def baseRegister (s : Assembler) : Assembler × Option Byte :=
  if s.token s.tpos = .punct (ch '(') then
    let s := { s with tpos := s.tpos + 1 }
    match s.token s.tpos with
    | .reg sval =>
        let rval : Byte := BitVec.ofNat 8 (findRegister sval)
        let s := { s with tpos := s.tpos + 1 }
        match s.token s.tpos with
        | .punct cval =>
            let s := { s with tpos := s.tpos + 1 }
            if cval = ch ')' then (s, some rval) else (s.fail "Expecting ')'", none)
        | _ => (s.fail "Expecting ')'", none)
    | _ => (s.fail "Expecting Register Id", none)
  else (s, some (BitVec.ofNat 8 regNone))

def getMem (s : Assembler) (codepos : Nat) : Assembler :=
  let d := s.displacement
  let b := d.1.baseRegister
  match b.2 with
  | none => b.1
  | some rval =>
      let c := (b.1.code codepos &&& 0xF0) ||| (rval &&& 0xF)
      { b.1 with code := putNum (Function.update b.1.code codepos c) (codepos + 1) d.2 4 }

def getArg (s : Assembler) (arg : ArgType) (pos hi : Nat) : Assembler :=
  match arg with
  | .rArg => s.getReg pos hi
  | .mArg => s.getMem pos
  | .iArg => s.getNum pos hi
  | .noArg => s

/-! ## Lines -/

/-- The second argument of an instruction, if it has one, and its line. -/
def encodeSecond (s : Assembler) (instr : Instr) (savebytepos : Int) : Assembler :=
  if instr.arg2 ≠ .noArg then
    if s.token s.tpos ≠ .punct (ch ',') then (s.fail "Expecting Comma").startLine
    else
      let s := { s with tpos := s.tpos + 1 }
      ((s.getArg instr.arg2 instr.arg2pos instr.arg2hi).printCode savebytepos).startLine
  else (s.printCode savebytepos).startLine

/-- The code of an instruction, in the second pass. -/
def encode (s : Assembler) (instr : Instr) (savebytepos : Int) : Assembler :=
  let s := { s with
    code := Function.update (Function.update s.code 0 instr.code) 1 (hpack regNone regNone) }
  (s.getArg instr.arg1 instr.arg1pos instr.arg1hi).encodeSecond instr savebytepos

def endLine (s : Assembler) (pos : Int) : Assembler :=
  (if s.pass > 1 then s.printCode pos else s).startLine

def finishInstr (s : Assembler) (savebytepos : Int) : Assembler :=
  match s.token s.tpos with
  | .instr sval =>
      let s := { s with tpos := s.tpos + 1 }
      if sval = ascii ".pos" then
        match s.token s.tpos with
        | .num ival => { s with bytepos := ival }.endLine ival
        | _ => (s.fail "Invalid Address").startLine
      else if sval = ascii ".align" then
        match s.token s.tpos with
        | .num a =>
            if a ≤ 0 then (s.fail "Invalid Alignment").startLine
            else
              let bytepos := (wrapInt (s.bytepos + a - 1)).tdiv a * a
              { s with bytepos := bytepos }.endLine bytepos
        | _ => (s.fail "Invalid Alignment").startLine
      else
        let found := findInstr sval
        let s := if found.isNone then s.fail "Invalid Instruction" else s
        let instr := found.getD badInstr
        let s := { s with bytepos := wrapInt (s.bytepos + instr.bytes), bcount := instr.bytes }
        if s.pass = 1 then s.startLine else s.encode instr savebytepos
  | _ => (s.fail "Bad Instruction").startLine

def finishLine (s : Assembler) : Assembler :=
  let savebytepos := s.bytepos
  let s := { s with tpos := 0 }
  if s.tokens = [] then s.endLine savebytepos
  else if s.errorMode then s.startLine
  else
    match s.token 0 with
    | .ident sval =>
        if s.token 1 ≠ .punct (ch ':') then (s.fail "Missing Colon").startLine
        else
          let s := if s.pass = 1 then s.addSymbol sval s.bytepos else s
          let s := { s with tpos := s.tpos + 2 }
          if s.tokens.length = 2 then s.endLine savebytepos else s.finishInstr savebytepos
    | _ => s.finishInstr savebytepos

end Assembler

/-! ## Files -/

/-- What the lexer calls.  `finishLine` and `invalidLine` are the ends of a line. -/
inductive Call where
  | saveLine (line : Text)
  | addToken (t : Token)
  | finishLine
  | invalidLine

def Assembler.call (s : Assembler) : Call → Assembler
  | .saveLine line => s.saveLine line
  | .addToken t => s.addToken t
  | .finishLine =>
      let s := s.finishLine
      { s with lineno := s.lineno + 1 }
  | .invalidLine =>
      let s := s.fail "Invalid line"
      { s with lineno := s.lineno + 1 }

def Assembler.perform (s : Assembler) (calls : List Call) : Assembler :=
  calls.foldl Assembler.call s

/-- The variables at the start of `main`. -/
def Assembler.start : Assembler where
  pass := 1
  lineno := 1
  bytepos := 0
  errorMode := false
  hitError := false
  tokens := []
  tpos := 0
  strpos := 0
  inputLine := []
  code := fun _ => 0
  bcount := 0
  symbolTable := []
  outfile := []
  stderr := []
  overrun := false
  underrun := false

/-- The variables before the second pass. -/
def Assembler.rewind (s : Assembler) : Assembler :=
  { s with pass := 2, lineno := 1, errorMode := false, bytepos := 0 }

end Yess.Yas
