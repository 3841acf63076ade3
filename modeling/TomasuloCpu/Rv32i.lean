import Mathlib.Data.Int.Notation
import Mathlib.Data.Nat.Notation
import Mathlib.Logic.Function.Basic

set_option autoImplicit false

/-!
# Machine words, access sizes and the arithmetic of the ALU

`rv32i.h`, `rvmath.c` and `alu-ops.c`. The C enumerations that the decoder fills
from instruction bits can hold values outside their lists of names, so they are
words here with the names as constants. An `Option` result is `none` where the
source fails an assertion.
-/
namespace TomasuloCpu

abbrev Byte := BitVec 8
abbrev Word := BitVec 32
abbrev Addr := Word
abbrev RsId := ℤ
abbrev RegId := ℤ
abbrev RobId := ℤ

abbrev LsSize := Word
namespace LsSize
def byte : LsSize := 0b000
def hword : LsSize := 0b001
def word : LsSize := 0b010
def byteu : LsSize := 0b100
def hwordu : LsSize := 0b101
end LsSize

abbrev AluOp := Word
namespace AluOp
def add : AluOp := 0b00000
def sll : AluOp := 0b00001
def slt : AluOp := 0b00010
def sltu : AluOp := 0b00011
def xor : AluOp := 0b00100
def srl : AluOp := 0b00101
def or : AluOp := 0b00110
def and : AluOp := 0b00111
def sub : AluOp := 0b01000
def sra : AluOp := 0b01101
def beq : AluOp := 0b10000
def bne : AluOp := 0b10001
def blt : AluOp := 0b10100
def bge : AluOp := 0b10101
def bltu : AluOp := 0b10110
def bgeu : AluOp := 0b10111
end AluOp

inductive LsOp where
  | load | store
  deriving DecidableEq, Repr

inductive RsType where
  | reservationStation | loadBuffer | storeBuffer
  deriving DecidableEq, Repr

inductive RobOp where
  | register | store | branch | jalr | hcf
  deriving DecidableEq, Repr

/-- What the target yields for the shifts that C leaves undefined: by 32 or
    more, or by a negative count. -/
class WideShift where
  shl : Word → Word → Word
  shr : Word → Word → Word
  signedShl : Word → Word → Word

def boolWord (b : Bool) : Word := if b then 1 else 0

/-- One round of the doubling loop: `mask |= (mask << (1 << i))`. -/
def signExtendRound (mask : Word) (i : ℕ) : Word := mask ||| (mask <<< (1 <<< i : ℕ))

def signExtend (word : Word) (size : ℕ) : Word :=
  word ||| (List.range 5).foldl signExtendRound (word &&& ((1 : Word) <<< (size - 1)))

def lsSize (size : LsSize) : Option ℕ :=
  if size = LsSize.word then some 4
  else if size = LsSize.hword ∨ size = LsSize.hwordu then some 2
  else if size = LsSize.byte ∨ size = LsSize.byteu then some 1
  else none

def signedAdd (base dx : Word) : Word := base + dx

def signedLt (value1 value2 : Word) : Word := boolWord (value1.slt value2)

section
variable [WideShift]

def shiftLeft (value1 value2 : Word) : Word :=
  if value2.toNat < 32 then value1 <<< value2.toNat else WideShift.shl value1 value2

def shiftRight (value1 value2 : Word) : Word :=
  if value2.toNat < 32 then value1 >>> value2.toNat else WideShift.shr value1 value2

/-- `_signed_rshift`, whose body shifts to the left. -/
def signedRshift (value1 value2 : Word) : Word :=
  if value2.toNat < 32 then value1 <<< value2.toNat else WideShift.signedShl value1 value2

def aluExecute (op : AluOp) (value1 value2 : Word) : Option Word :=
  if op = AluOp.add then some (value1 + value2)
  else if op = AluOp.sll then some (shiftLeft value1 value2)
  else if op = AluOp.slt then some (signedLt value1 value2)
  else if op = AluOp.sltu then some (boolWord (value1.ult value2))
  else if op = AluOp.xor then some (value1 ^^^ value2)
  else if op = AluOp.srl then some (shiftRight value1 value2)
  else if op = AluOp.or then some (value1 ||| value2)
  else if op = AluOp.and then some (value1 &&& value2)
  else if op = AluOp.sub then some (value1 - value2)
  else if op = AluOp.sra then some (signedRshift value1 value2)
  else if op = AluOp.beq then some (boolWord (value1 == value2))
  else if op = AluOp.bne then some (boolWord (value1 != value2))
  else if op = AluOp.blt then some (signedLt value1 value2)
  else if op = AluOp.bge then some (boolWord (signedLt value1 value2 == 0))
  else if op = AluOp.bltu then some (boolWord (value1.ult value2))
  else if op = AluOp.bgeu then some (boolWord (value2.ule value1))
  else none

end

end TomasuloCpu
