import Yess.Memory
import Yess.Strtonum

/-!
# Memory image loader

`memLoader.c`: each line of an image gives an address of four digits and a word;
a star behind it asks for the word to be repeated up to the address of the next
line.
-/

namespace Yess.MemLoader

open Lib.CString

abbrev lineLen : Nat := 17
abbrev minLineLen : Nat := 15

/-- A character of a line; the line that `getline` reads ends in a NUL. -/
def get (line : Text) (column : Nat) : Byte := line.getD column nul

/-- The fields of `struct memory_record` that one line hands to the next. -/
structure MemoryRecord where
  lineno : Word
  prevaddress : Int
  prevdata : Word
  prevstarline : Bool

def validatememfilename (filename : Text) : Bool := filenameEndsIn filename 4 (ascii ".mem")

def hashexdigits (line : Text) (start last : Nat) : Bool :=
  if start > last then false
  else if line.length ≤ last then false
  else (List.range' start (last + 1 - start)).all fun i => isxdigit (get line i)

/-- The address in the line.  `hexaddr` has five characters. -/
def readaddress (line : Text) : Option Int :=
  let span := strcspn (cstring line) (ch ':')
  if span < 1 ∨ span = line.length - 1 ∨ span > 5 then none
  else
    let memaddr := strtoint (line.take span) 16
    if memaddr = -1 then none
    else if memaddr > highByte then none
    else some memaddr

def strtouint (nptr : Text) (base : Nat) : Option Word :=
  match strtonumOBSD nptr 0 4294967295 base with
  | .ok num => some (BitVec.ofInt 32 num)
  | .error _ => none

def readdata (line : Text) : Option Word :=
  strtouint (cstring ((List.range' 6 8).map (get line))) 16

/-- Does the line have a star?  `none` for a bad character in its place. -/
def readstar (line : Text) : Option Bool :=
  if line.length > minLineLen then
    if get line 15 ≠ ch '*' ∧ !isspace (get line 15) then none
    else some (get line 15 = ch '*')
  else some false

def addressInOrder (record : MemoryRecord) (memaddress : Int) : Bool :=
  if record.prevaddress = -1 then memaddress = 0
  else if record.prevstarline then
    ¬ (memaddress < record.prevaddress + 2 * wordSize ∨ memaddress % wordSize ≠ 0)
  else memaddress = record.prevaddress + wordSize

def validateline (record : MemoryRecord) (line : Text) : Option (Int × Bool) :=
  if line.length < minLineLen ∨ line.length > lineLen then none
  else if get line 4 ≠ ch ':' then none
  else if !isblank (get line 5) then none
  else if !hashexdigits line 0 3 then none
  else if !hashexdigits line 6 13 then none
  else
    match readstar line with
    | none => none
    | some starline =>
        match readaddress line with
        | none => none
        | some memaddress =>
            if addressInOrder record memaddress then some (memaddress, starline) else none

/-- Store a word at every word address from `addr` to before `memaddress`, and say
whether all could be stored.  Addresses inside memory need no more fuel than `MEMSIZE`. -/
def putrepeatdata (data : Word) (memaddress : Int) : Nat → Int → Memory → Memory × Bool
  | 0, _, memory => (memory, true)
  | fuel + 1, addr, memory =>
      if addr < memaddress then
        let put := putWord memory addr data
        if put.2 then (put.1, false)
        else putrepeatdata data memaddress fuel (addr + wordSize) put.1
      else (memory, true)

/-- What a call of `load_mem_image` leaves: the return value, memory and the text printed. -/
structure Loaded where
  result : Bool
  memory : Memory
  printed : Text

def erroneousLine (lineno : Word) (line : Text) : Text :=
  ascii "Error on line " ++ ascii (toString lineno.toInt) ++ ascii ":" ++ [newline] ++
    cstring line ++ [newline]

def loadLines : Memory → MemoryRecord → List Text → Loaded
  | memory, _, [] => ⟨true, memory, []⟩
  | memory, record, line :: rest =>
      match validateline record line with
      | none => ⟨false, memory, erroneousLine record.lineno line⟩
      | some (memaddress, starline) =>
          match readdata line with
          | none => ⟨false, memory, []⟩
          | some data =>
              let repeated :=
                if record.prevstarline then
                  putrepeatdata record.prevdata memaddress memSize (record.prevaddress + wordSize)
                    memory
                else (memory, true)
              if !repeated.2 then ⟨false, repeated.1, []⟩
              else
                let put := putWord repeated.1 memaddress data
                if put.2 then ⟨false, put.1, []⟩
                else loadLines put.1 ⟨record.lineno + 1, memaddress, data, starline⟩ rest

theorem loadLines_rejected {memory : Memory} {record : MemoryRecord} {line : Text}
    (rejected : validateline record line = none) (rest : List Text) :
    loadLines memory record (line :: rest) =
      ⟨false, memory, erroneousLine record.lineno line⟩ := by
  unfold loadLines
  rw [rejected]

/-- Load a memory image from a file.  `file` is the text of the file, if it can be opened. -/
def loadMemImage (fileName : Text) (file : Option Text) (memory : Memory) : Loaded :=
  if !validatememfilename fileName then ⟨false, memory, []⟩
  else
    match file with
    | none => ⟨false, memory, []⟩
    | some text => loadLines memory ⟨1, -1, 0, false⟩ (getlines text)

end Yess.MemLoader
