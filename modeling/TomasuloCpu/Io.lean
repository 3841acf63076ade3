import TomasuloCpu.Library.Clocked
import TomasuloCpu.Memory

set_option autoImplicit false

/-!
# The loader

`io.c`. Standard input is the list of the bytes that are left. `getchar` is
assigned to a `char`, so the end of the input and a byte `0xff` are one value. A
loop takes the number of iterations it may make and is `none` if they run out. A
write past the end of memory, which `mem_set` does not check for, is a fault.
-/
namespace TomasuloCpu
open Clocked

/-- `EOF` as a `char`. -/
def eof : Byte := 0xff

def atSign : Byte := 0x40

def isspace (c : Byte) : Bool := c = 0x20 || (0x09 ≤ c && c ≤ 0x0d)

def isdigit (c : Byte) : Bool := 0x30 ≤ c && c ≤ 0x39

def isalnum (c : Byte) : Bool :=
  isdigit c || (0x41 ≤ c && c ≤ 0x5a) || (0x61 ≤ c && c ≤ 0x7a)

def isxdigit (c : Byte) : Bool :=
  isdigit c || (0x41 ≤ c && c ≤ 0x46) || (0x61 ≤ c && c ≤ 0x66)

def getchar : List Byte → Byte × List Byte
  | [] => (eof, [])
  | c :: stdin => (c, stdin)

def ungetc (c : Byte) (stdin : List Byte) : List Byte := c :: stdin

def hexDigit (c : Byte) : ℕ :=
  if isdigit c then c.toNat - 0x30 else if c ≤ 0x46 then c.toNat - 0x37 else c.toNat - 0x57

def hexNumber (digits : List Byte) : ℕ := digits.foldl (fun n c => 16 * n + hexDigit c) 0

def scanSign : List Byte → Bool × List Byte
  | [] => (false, [])
  | c :: text =>
    if c = 0x2b then (false, text)
    else if c = 0x2d then (true, text)
    else (false, c :: text)

def scanPrefix : List Byte → List Byte
  | c :: x :: text => if c = 0x30 ∧ (x = 0x58 ∨ x = 0x78) then text else c :: x :: text
  | text => text

def ulongMax : ℕ := 0xffffffffffffffff

/-- `strtoul` and the assignment to an `unsigned int`. -/
def scanValue (minus : Bool) (n : ℕ) : Word :=
  if ulongMax < n then .allOnes 32 else if minus then -.ofNat 32 n else .ofNat 32 n

/-- `scanf("%x")`: the number, if the text after white space begins with one, and
    the rest of the input. A prefix without digits is the number 0. White space is
    consumed in any case. -/
def scanHex (stdin : List Byte) : Option Word × List Byte :=
  let item := stdin.dropWhile isspace
  let (minus, text) := scanSign item
  if text.takeWhile isxdigit = [] then (none, item)
  else
    let text := scanPrefix text
    (some (scanValue minus (hexNumber (text.takeWhile isxdigit))), text.dropWhile isxdigit)

def memSet (data : MemData) (addr : Addr) (value : Byte) : Except Fault MemData :=
  if addr.toNat < memSize then .ok (Function.update data addr.toNat value)
  else .error .outOfBounds

structure Loader where
  stdin : List Byte
  data : MemData
  /-- The characters left before and after each pass of the byte loop. -/
  passes : List (ℕ × ℕ)

def skipChars : List Byte → Byte × List Byte
  | [] => (eof, [])
  | c :: stdin => if c ≠ atSign ∧ c ≠ eof ∧ !isalnum c then skipChars stdin else (c, stdin)

section
/- What the unassigned variable of `_read_num` holds where `scanf` fails. -/
variable (unset : List Byte → Word)

def readNum (stdin : List Byte) : Word × List Byte :=
  ((scanHex stdin).1.getD (unset stdin), (scanHex stdin).2)

/-- A pass of the loop over the bytes of a segment, with the character it ends at. -/
def readByte (addr : Addr) (s : Loader) : Except Fault (Byte × Loader) := do
  let (octet, stdin) := readNum unset s.stdin
  let data ← memSet s.data addr (octet.setWidth 8)
  let (c, stdin) := skipChars stdin
  let stdin := if isalnum c then ungetc c stdin else stdin
  return (c, ⟨stdin, data, s.passes ++ [(s.stdin.length, stdin.length)]⟩)

def readBytes : ℕ → Addr → Loader → Option (Except Fault (Byte × Loader))
  | 0, _, _ => none
  | n + 1, addr, s =>
    match readByte unset addr s with
    | .error f => some (.error f)
    | .ok (c, s) =>
      if c ≠ atSign ∧ c ≠ eof then readBytes n (addr + 1) s else some (.ok (c, s))

def readSegments : ℕ → Byte → Loader → Option (Except Fault Loader)
  | 0, _, _ => none
  | n + 1, c, s =>
    if c ≠ atSign then some (.error .assertion)
    else
      let (addr, stdin) := readNum unset s.stdin
      match readBytes unset n addr { s with stdin := stdin } with
      | none => none
      | some (.error f) => some (.error f)
      | some (.ok (c, s)) => if c = eof then some (.ok s) else readSegments n c s

/-- `read_to_memory` on the memory of `mem_create`. -/
def readToMemory (n : ℕ) (stdin : List Byte) : Option (Except Fault Loader) :=
  let (c, stdin) := getchar stdin
  readSegments unset n c ⟨stdin, fun _ => 0, []⟩

end

end TomasuloCpu
