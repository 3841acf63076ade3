import TomasuloCpu.Arith
import TomasuloCpu.SizedAccess

set_option autoImplicit false

/-!
# RV32I

A hart of the base instruction set: 32 registers of which the first is zero, and
memory as bytes at 32-bit addresses. Instructions do not trap; a jump may go to any
even address.
-/
namespace TomasuloCpu

namespace ImmOp

def loadSize : ImmOp → Option LsSize
  | .lb => some LsSize.byte
  | .lh => some LsSize.hword
  | .lw => some LsSize.word
  | .lbu => some LsSize.byteu
  | .lhu => some LsSize.hwordu
  | _ => none

/-- The operation on the register and the immediate; loads and JALR add them. -/
def alu : ImmOp → AluName
  | .slti => .slt
  | .sltiu => .sltu
  | .xori => .xor
  | .ori => .or
  | .andi => .and
  | _ => .add

end ImmOp

def ShiftOp.alu : ShiftOp → AluName
  | .slli => .sll
  | .srli => .srl
  | .srai => .sra

def StoreOp.size : StoreOp → LsSize
  | .sb => LsSize.byte
  | .sh => LsSize.hword
  | .sw => LsSize.word

def RegOp.alu : RegOp → AluName
  | .add => .add
  | .sub => .sub
  | .sll => .sll
  | .slt => .slt
  | .sltu => .sltu
  | .xor => .xor
  | .srl => .srl
  | .sra => .sra
  | .or => .or
  | .and => .and

def BranchOp.taken (value1 value2 : Word) : BranchOp → Bool
  | .beq => value1 = value2
  | .bne => value1 ≠ value2
  | .blt => value1.toInt < value2.toInt
  | .bge => value2.toInt ≤ value1.toInt
  | .bltu => value1.toNat < value2.toNat
  | .bgeu => value2.toNat ≤ value1.toNat

@[ext] structure Hart where
  x : BitVec 5 → Word
  mem : Addr → Byte
  pc : Addr
  x_zero : x 0 = 0

namespace Hart

def boot (mem : Addr → Byte) : Hart := ⟨fun _ => 0, mem, 0, rfl⟩

def set (h : Hart) (rd : BitVec 5) (value : Word) : Hart where
  x := fun r => if r = rd ∧ r ≠ 0 then value else h.x r
  mem := h.mem
  pc := h.pc
  x_zero := (if_neg (by simp)).trans h.x_zero

def goto (h : Hart) (pc : Addr) : Hart := { h with pc := pc }

/-- The number in the `n` bytes at an address, the least significant first. -/
def number (h : Hart) (a : Addr) (n : ℕ) : ℕ :=
  Nat.ofDigits 256 ((List.range n).map fun i => (h.mem (a + BitVec.ofNat 32 i)).toNat)

def load (h : Hart) (a : Addr) (size : LsSize) : Word := extendTo size (h.number a (lsBytes size))

def store (h : Hart) (a : Addr) (size : LsSize) (value : Word) : Hart :=
  { h with
    mem := fun b =>
      if (b - a).toNat < lsBytes size then value.extractLsb' (8 * (b - a).toNat) 8 else h.mem b }

def immValue (h : Hart) (op : ImmOp) (value imm : Word) : Word :=
  if op = .jalr then h.pc + 4
  else match op.loadSize with
    | some size => h.load (value + imm) size
    | none => op.alu.result value imm

def exec (h : Hart) : Rv32i → Hart
  | .imm op rd rs1 imm12 =>
    let imm := imm12.signExtend 32
    (h.set rd (h.immValue op (h.x rs1) imm)).goto
      (if op = .jalr then (h.x rs1 + imm) &&& ~~~(1 : Word) else h.pc + 4)
  | .shift op rd rs1 shamt =>
    (h.set rd (op.alu.result (h.x rs1) (shamt.setWidth 32))).goto (h.pc + 4)
  | .store op rs1 rs2 imm12 =>
    (h.store (h.x rs1 + imm12.signExtend 32) op.size (h.x rs2)).goto (h.pc + 4)
  | .reg op rd rs1 rs2 => (h.set rd (op.alu.result (h.x rs1) (h.x rs2))).goto (h.pc + 4)
  | .branch op rs1 rs2 offset =>
    h.goto (if op.taken (h.x rs1) (h.x rs2) then
      h.pc + (offset ++ (0 : BitVec 1)).signExtend 32 else h.pc + 4)
  | .upper .lui rd imm20 => (h.set rd (imm20 ++ (0 : BitVec 12))).goto (h.pc + 4)
  | .upper .auipc rd imm20 => (h.set rd (h.pc + (imm20 ++ (0 : BitVec 12)))).goto (h.pc + 4)
  | .jal rd offset =>
    (h.set rd (h.pc + 4)).goto (h.pc + (offset ++ (0 : BitVec 1)).signExtend 32)

end Hart

end TomasuloCpu
