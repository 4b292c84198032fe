import Yess.InstructionFormat
import Yess.Loader.Records
import Yess.Yas.Grammar

/-!
# Assembly programs

What the lines of an assembly program stand for: statements, directives and
labels, the tokens they are written with, the addresses they get and the bytes
they give.
-/

namespace Yess.Yas

open Lib.BitField Lib.CString

/-! ## Statements -/

/-- A number, or the address of a label. -/
inductive Constant where
  | number (value : Int)
  | label (name : Text)
  deriving DecidableEq

namespace Constant

def token : Constant → Token
  | number value => .num value
  | label name => .ident name

def value (resolve : Text → Int) : Constant → Int
  | number value => value
  | label name => resolve name

def word (resolve : Text → Int) (c : Constant) : Word := BitVec.ofInt 32 (c.value resolve)

def names : Constant → List Text
  | number _ => []
  | label name => [name]

end Constant

/-- A memory reference. -/
structure Address where
  displacement : Option Constant
  base : Option (Fin 8)
  deriving DecidableEq

def regName (reg : Fin 8) : Text := regNames.getD reg.val []

namespace Address

def tokens (a : Address) : List Token :=
  (a.displacement.map Constant.token).toList ++
    a.base.elim [] fun reg => [.punct (ch '('), .reg (regName reg), .punct (ch ')')]

def word (resolve : Text → Int) (a : Address) : Word :=
  BitVec.ofInt 32 (a.displacement.elim 0 (Constant.value resolve))

def nibble (a : Address) : BitVec 4 := a.base.elim 0xF fun reg => BitVec.ofNat 4 reg.val

def names (a : Address) : List Text := a.displacement.elim [] Constant.names

end Address

/-- The sizes of the data directives. -/
inductive Width where
  | byte | word | long
  deriving DecidableEq

def Width.bytes : Width → Nat
  | byte => 1
  | word => 2
  | long => 4

/-- A statement with its operands.  The numbers pick an operation or a condition by its
function code. -/
inductive Statement where
  | nop | halt | ret | leave
  | rrmovl (condition : Fin 7) (rA rB : Fin 8)
  | irmovl (constant : Constant) (rB : Fin 8)
  | rmmovl (rA : Fin 8) (address : Address)
  | mrmovl (address : Address) (rA : Fin 8)
  | opl (operation : Fin 4) (rA rB : Fin 8)
  | jxx (condition : Fin 7) (target : Constant)
  | call (target : Constant)
  | pushl (rA : Fin 8)
  | popl (rA : Fin 8)
  | iaddl (constant : Constant) (rB : Fin 8)
  | data (width : Width) (constant : Constant)
  deriving DecidableEq

namespace Statement

def mnemonic : Statement → Text
  | nop => ascii "nop"
  | halt => ascii "halt"
  | ret => ascii "ret"
  | leave => ascii "leave"
  | rrmovl condition _ _ =>
      [ascii "rrmovl", ascii "cmovle", ascii "cmovl", ascii "cmove", ascii "cmovne",
        ascii "cmovge", ascii "cmovg"].getD condition.val []
  | irmovl _ _ => ascii "irmovl"
  | rmmovl _ _ => ascii "rmmovl"
  | mrmovl _ _ => ascii "mrmovl"
  | opl operation _ _ =>
      [ascii "addl", ascii "subl", ascii "andl", ascii "xorl"].getD operation.val []
  | jxx condition _ =>
      [ascii "jmp", ascii "jle", ascii "jl", ascii "je", ascii "jne", ascii "jge",
        ascii "jg"].getD condition.val []
  | call _ => ascii "call"
  | pushl _ => ascii "pushl"
  | popl _ => ascii "popl"
  | iaddl _ _ => ascii "iaddl"
  | data .byte _ => ascii ".byte"
  | data .word _ => ascii ".word"
  | data .long _ => ascii ".long"

def operands : Statement → List Token
  | nop | halt | ret | leave => []
  | rrmovl _ rA rB | opl _ rA rB => [.reg (regName rA), .punct (ch ','), .reg (regName rB)]
  | irmovl constant rB | iaddl constant rB =>
      [constant.token, .punct (ch ','), .reg (regName rB)]
  | rmmovl rA address => .reg (regName rA) :: .punct (ch ',') :: address.tokens
  | mrmovl address rA => address.tokens ++ [.punct (ch ','), .reg (regName rA)]
  | jxx _ target | call target => [target.token]
  | pushl rA | popl rA => [.reg (regName rA)]
  | data _ constant => [constant.token]

def tokens (st : Statement) : List Token := .instr st.mnemonic :: st.operands

def names : Statement → List Text
  | irmovl constant _ | iaddl constant _ | data _ constant => constant.names
  | rmmovl _ address | mrmovl address _ => address.names
  | jxx _ target | call target => target.names
  | _ => []

def nibble (reg : Fin 8) : BitVec 4 := BitVec.ofNat 4 reg.val

def opcode : Statement → Byte
  | halt => joinNibbles 0x0 0
  | nop => joinNibbles 0x1 0
  | rrmovl condition _ _ => joinNibbles 0x2 (BitVec.ofNat 4 condition.val)
  | irmovl _ _ => joinNibbles 0x3 0
  | rmmovl _ _ => joinNibbles 0x4 0
  | mrmovl _ _ => joinNibbles 0x5 0
  | opl operation _ _ => joinNibbles 0x6 (BitVec.ofNat 4 operation.val)
  | jxx condition _ => joinNibbles 0x7 (BitVec.ofNat 4 condition.val)
  | call _ => joinNibbles 0x8 0
  | ret => joinNibbles 0x9 0
  | pushl _ => joinNibbles 0xA 0
  | popl _ => joinNibbles 0xB 0
  | iaddl _ _ => joinNibbles 0xC 0
  | leave => joinNibbles 0xD 0
  | data _ _ => 0

/-- The code of the statement. -/
def bytes (resolve : Text → Int) (st : Statement) : List Byte :=
  match st with
  | nop | halt | ret | leave => [st.opcode]
  | rrmovl _ rA rB | opl _ rA rB => [st.opcode, joinNibbles (nibble rA) (nibble rB)]
  | irmovl constant rB | iaddl constant rB =>
      st.opcode :: joinNibbles 0xF (nibble rB) :: littleEndian (constant.word resolve)
  | rmmovl rA address | mrmovl address rA =>
      st.opcode :: joinNibbles (nibble rA) address.nibble :: littleEndian (address.word resolve)
  | jxx _ target | call target => st.opcode :: littleEndian (target.word resolve)
  | pushl rA | popl rA => [st.opcode, joinNibbles (nibble rA) 0xF]
  | data width constant => (littleEndian (constant.word resolve)).take width.bytes

end Statement

/-! ## Lines -/

/-- What a line does behind its label. -/
inductive Body where
  | statement (st : Statement)
  | pos (address : Int)
  | align (amount : Int)
  deriving DecidableEq

def Body.tokens : Body → List Token
  | statement st => st.tokens
  | pos address => [.instr (ascii ".pos"), .num address]
  | align amount => [.instr (ascii ".align"), .num amount]

/-- A line of a program: a label, a statement or directive, and the line as it is written. -/
structure SourceLine where
  label : Option Text
  body : Option Body
  text : Text

/-- The data record at an address, of which it has the low three digits. -/
def printed (pos : Int) (bytes : List Byte) (text : Text) : Record :=
  .data (dataRecord (BitVec.ofInt 32 pos).toNat bytes (space :: text))

namespace SourceLine

def tokens (l : SourceLine) : List Token :=
  (l.label.elim [] fun name => [.ident name, .punct (ch ':')]) ++ l.body.elim [] Body.tokens

/-- What the lexer calls for the line. -/
def calls (l : SourceLine) : List Call :=
  .saveLine (l.text ++ [newline]) :: (l.tokens.map .addToken ++ [.finishLine])

def names (l : SourceLine) : List Text :=
  match l.body with
  | some (.statement st) => st.names
  | _ => []

/-- The address with which the line is printed, if it starts at `bytepos`. -/
def place (l : SourceLine) (bytepos : Int) : Int :=
  match l.body with
  | some (.pos address) => address
  | some (.align amount) => (bytepos + amount - 1).tdiv amount * amount
  | _ => bytepos

def bytes (resolve : Text → Int) (l : SourceLine) : List Byte :=
  match l.body with
  | some (.statement st) => st.bytes resolve
  | _ => []

def behind (l : SourceLine) (bytepos : Int) : Int :=
  l.place bytepos + (l.bytes fun _ => 0).length

def record (resolve : Text → Int) (l : SourceLine) (bytepos : Int) : Record :=
  if l.tokens = [] then .comment (commentRecord (space :: l.text))
  else printed (l.place bytepos) (l.bytes resolve) l.text

/-- The values that are computed for the address behind the line. -/
def computed (l : SourceLine) (bytepos : Int) : List Int :=
  match l.body with
  | some (.align amount) => [bytepos + amount - 1, l.behind bytepos]
  | _ => [l.behind bytepos]

/-- The line is written with its tokens, it fits in the arrays of the assembler, and its
alignment is a number of bytes. -/
structure Proper (l : SourceLine) : Prop where
  written : Written l.tokens l.text
  oneLine : ∀ c ∈ l.text, c ≠ nul ∧ c ≠ newline ∧ c ≠ 0x0d
  short : l.text.length + 1 < strMax
  strings : (l.tokens.map Token.size).sum ≤ strMax
  align : ∀ amount, l.body = some (.align amount) → 0 < amount

end SourceLine

/-! ## Programs -/

def sourceText (program : List SourceLine) : Text := program.flatMap fun l => l.text ++ [newline]

/-- The labels of a program that starts at `bytepos`, with their addresses. -/
def labels : List SourceLine → Int → List (Text × Int)
  | [], _ => []
  | l :: rest, bytepos =>
      (l.label.map fun name => (name, bytepos)).toList ++ labels rest (l.behind bytepos)

def behindAll : List SourceLine → Int → Int
  | [], bytepos => bytepos
  | l :: rest, bytepos => behindAll rest (l.behind bytepos)

/-- The address of the first label of that name. -/
def resolve (program : List SourceLine) (name : Text) : Int :=
  (((labels program 0).find? fun symbol => symbol.1 = name).map Prod.snd).getD (-1)

def records (resolve : Text → Int) : List SourceLine → Int → List Record
  | [], _ => []
  | l :: rest, bytepos => l.record resolve bytepos :: records resolve rest (l.behind bytepos)

def computed : List SourceLine → Int → List Int
  | [], _ => []
  | l :: rest, bytepos => l.computed bytepos ++ computed rest (l.behind bytepos)

def IsInt (value : Int) : Prop := intMin ≤ value ∧ value ≤ intMax

instance (value : Int) : Decidable (IsInt value) := inferInstanceAs (Decidable (_ ∧ _))

/-- What the assembler asks of a program. -/
structure Proper (program : List SourceLine) : Prop where
  lines : ∀ l ∈ program, l.Proper
  few : (labels program 0).length ≤ stab
  ints : ∀ value ∈ computed program 0, IsInt value
  defined : ∀ l ∈ program, ∀ name ∈ l.names, ∃ address, (name, address) ∈ labels program 0

end Yess.Yas
