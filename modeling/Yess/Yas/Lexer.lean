import Yess.Lib.LongestMatch
import Yess.Yas.Assembler

/-!
# The lexer

The patterns of `yas-grammar.lex`, and the scanner that `flex` makes of them: the
longest match is taken, and of equal ones the first pattern of the file.
-/

namespace Yess.Yas

open Lib.CString Lib.LongestMatch

/-! ## Patterns -/

abbrev carriageReturn : Byte := 0x0d

def isLetter (c : Byte) : Bool := (0x41 ≤ c && c ≤ 0x5a) || (0x61 ≤ c && c ≤ 0x7a)

def isDigit (c : Byte) : Bool := 0x30 ≤ c && c ≤ 0x39

/-- What `Ident` has behind its first letter. -/
def isWord (c : Byte) : Bool := isLetter c || isDigit c || c = ch '_'

def isChar (c : Byte) : Bool := c ≠ newline && c ≠ carriageReturn

/-- `Instr` -/
def instrNames : List Text :=
  [ascii "rrmovl", ascii "cmovle", ascii "cmovl", ascii "cmove", ascii "cmovne", ascii "cmovge",
    ascii "cmovg", ascii "rmmovl", ascii "mrmovl", ascii "irmovl", ascii "addl", ascii "subl",
    ascii "andl", ascii "xorl", ascii "jmp", ascii "jle", ascii "jl", ascii "je", ascii "jne",
    ascii "jge", ascii "jg", ascii "call", ascii "ret", ascii "pushl", ascii "popl",
    ascii ".byte", ascii ".word", ascii ".long", ascii ".pos", ascii ".align", ascii "halt",
    ascii "nop", ascii "iaddl", ascii "leave"]

def regs : List Text :=
  [ascii "%eax", ascii "%ecx", ascii "%edx", ascii "%ebx", ascii "%esi", ascii "%edi",
    ascii "%esp", ascii "%ebp"]

/-- Characters of a kind, `{Return}*` and `{Newline}`. -/
def toNewline (p : Byte → Bool) (text : Text) : Option Nat :=
  let front := (text.takeWhile p).length
  let returns := ((text.drop front).takeWhile (· = carriageReturn)).length
  if text[front + returns]? = some newline then some (front + returns + 1)
  else if returns = 0 then none
  else some (front + returns)

def comment (mark text : Text) : Option Nat :=
  if mark.isPrefixOf text then
    (toNewline isChar (text.drop mark.length)).map (mark.length + ·)
  else none

/-- `[-]?{Digit}+` -/
def number : Text → Option Nat
  | [] => none
  | c :: rest => if c = ch '-' then (many isDigit rest).map (· + 1) else many isDigit (c :: rest)

/-- `"0"[xX]{Hex}+` -/
def hexNumber : Text → Option Nat
  | zero :: x :: rest =>
      if zero = ch '0' ∧ (x = ch 'x' ∨ x = ch 'X') then (many isxdigit rest).map (· + 2) else none
  | _ => none

def ident : Text → Option Nat
  | [] => none
  | c :: rest => if isLetter c then some ((rest.takeWhile isWord).length + 1) else none

def one (p : Byte → Bool) : Text → Option Nat
  | [] => none
  | c :: _ => if p c then some 1 else none

/-- The patterns without a start condition, but for the one that keeps the line. -/
inductive Pattern where
  | hash | slashes | slashStar | line | blanks | dollars | instr | reg | num | hex | punct | ident
  | other
  deriving DecidableEq

/-- The patterns in the order of the file. -/
def patterns : List Pattern :=
  [.hash, .slashes, .slashStar, .line, .blanks, .dollars, .instr, .reg, .num, .hex, .punct,
    .ident, .other]

/-- `[():,]` -/
def isPunct (c : Byte) : Bool := c ∈ [ch '(', ch ')', ch ':', ch ',']

def Pattern.longest : Pattern → Text → Option Nat
  | hash => comment (ascii "#")
  | slashes => comment (ascii "//")
  | slashStar => comment (ascii "/*")
  | line => toNewline isblank
  | blanks => many isblank
  | dollars => many (· = ch '$')
  | instr => oneOf instrNames
  | reg => oneOf regs
  | num => number
  | hex => hexNumber
  | punct => one isPunct
  | ident => Yas.ident
  | other => one isChar

/-! ## Actions -/

def atoi (text : Text) : Int := (BitVec.ofInt 32 (strtol text 10).value).toInt

/-- `atoh`, for a text that starts with `0x`: `strtoul` gives at most `ULONG_MAX`. -/
def atoh (text : Text) : Int :=
  (BitVec.ofNat 32 (min (hexValue (text.drop 2)) 18446744073709551615)).toInt

def Pattern.calls (lexeme : Text) : Pattern → List Call
  | hash | slashes | slashStar | line => [.finishLine]
  | blanks | dollars | other => []
  | instr => [.addToken (.instr lexeme)]
  | reg => [.addToken (.reg lexeme)]
  | num => [.addToken (.num (atoi lexeme))]
  | hex => [.addToken (.num (atoh lexeme))]
  | punct => [.addToken (.punct (lexeme.headD nul))]
  | ident => [.addToken (.ident lexeme)]

/-- The calls of `save_line` at the start of a line.  `REJECT` goes on with the next match,
which is a shorter one of the same pattern until the match of `n` characters is next. -/
def savedLines (text : Text) (n : Nat) : List Call :=
  let front := (text.takeWhile isChar).length
  match toNewline isChar text with
  | none => []
  | some longest =>
      ((List.range' (front + 1) (longest - front)).reverse.filter (n ≤ ·)).map fun length =>
        .saveLine (text.take length)

/-! ## Scanning -/

/-- What a scan leaves: its calls, and whether it ends in the state `ERR`. -/
structure Lexed where
  calls : List Call
  err : Bool

def Lexed.after (calls : List Call) (lexed : Lexed) : Lexed :=
  { lexed with calls := calls ++ lexed.calls }

/-- The match in `ERR`: the rest of the line with one character of its end. -/
def errLine (text : Text) : Option Nat :=
  let front := (text.takeWhile isChar).length
  if front < text.length then some (front + 1) else none

/-- Scan a text of which `skip` characters belong to the match before.  `bol` tells that
the next match starts a line, and `err` is the start condition. -/
def scan : Nat → Bool → Bool → Text → Lexed
  | _, _, err, [] => ⟨[], err⟩
  | skip + 1, bol, err, _ :: rest => scan skip bol err rest
  | 0, _, true, c :: rest =>
      match errLine (c :: rest) with
      | none => scan 0 false true rest
      | some n =>
          (scan (n - 1) (((c :: rest).take n).getLast? = some newline) false rest).after
            [.invalidLine]
  | 0, bol, false, c :: rest =>
      match best Pattern.longest patterns (c :: rest) with
      | none => scan 0 false false rest
      | some (n, pattern) =>
          let lexeme := (c :: rest).take n
          (scan (n - 1) (lexeme.getLast? = some newline) (pattern = .other) rest).after
            ((if bol then savedLines (c :: rest) n else []) ++ pattern.calls lexeme)

/-- `yylex` on a whole file, in the start condition that the scan before has left. -/
def yylex (s : Assembler) (err : Bool) (file : Text) : Assembler × Bool :=
  let lexed := scan 0 true err file
  (s.perform lexed.calls, lexed.err)

/-- `main` of `yas` for an input file.  The exit status is `hitError`; a file with errors
in the first pass is not read again. -/
def main (file : Text) : Assembler :=
  let first := yylex .start false file
  if first.1.hitError then first.1 else (yylex first.1.rewind first.2 file).1

end Yess.Yas
