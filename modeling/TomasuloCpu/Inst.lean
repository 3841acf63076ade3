import TomasuloCpu.Rv32i

set_option autoImplicit false

/-!
# Instruction decoding

`inst.h` and `inst.c`. The op of an instruction is its opcode with `funct3` and
one bit of `funct7` concatenated, where the format has them.
-/
namespace TomasuloCpu

abbrev InstOp := Word
abbrev Opcode := Word

namespace Opcode
def load : Opcode := 0b0000011
def store : Opcode := 0b0100011
def imm : Opcode := 0b0010011
def op : Opcode := 0b0110011
def auipc : Opcode := 0b0010111
def lui : Opcode := 0b0110111
def branch : Opcode := 0b1100011
def jalr : Opcode := 0b1100111
def jal : Opcode := 0b1101111
end Opcode

namespace InstOp
def slli : InstOp := 0b00010010011
def sltiu : InstOp := 0b00110010011
def srli : InstOp := 0b01010010011
def jal : InstOp := 0b1101111
def hcf : InstOp := 0xfee1dead
def unimp : InstOp := 0xbada991e
end InstOp

inductive InstFormat where
  | i | u | r | j | b | s | unimp
  deriving DecidableEq, Repr

structure Inst where
  op : InstOp
  opcode : Opcode
  format : InstFormat
  immediate : Word
  rs1 : RegId
  rs2 : RegId
  rd : RegId
  width : LsSize
  deriving DecidableEq, Repr

def instSize : Word := 4

def opcodeMask : Word := 0b00000000000000000000000001111111
def rdMask : Word := 0b00000000000000000000111110000000
def funct3Mask : Word := 0b00000000000000000111000000000000
def rs1Mask : Word := 0b00000000000011111000000000000000
def rs2Mask : Word := 0b00000001111100000000000000000000
def funct7Mask : Word := 0b11111110000000000000000000000000
def immMask : Word := funct7Mask ||| rs2Mask
def uImmMask : Word := immMask ||| rs1Mask ||| funct3Mask

def instGet (inst mask : Word) (shift : ℕ) : Word := (inst &&& mask) >>> shift

def instJalImm (inst : Word) : Word :=
  signExtend
    (instGet inst 0b10000000000000000000000000000000 11 |||
      instGet inst 0b00000000000011111111000000000000 0 |||
      instGet inst 0b01111111111000000000000000000000 20 |||
      instGet inst 0b00000000000100000000000000000000 9) 21

def instBranchImm (inst : Word) : Word :=
  signExtend
    (instGet inst 0b10000000000000000000000000000000 19 |||
      (instGet inst 0b00000000000000000000000010000000 7 <<< 11) |||
      instGet inst 0b01111110000000000000000000000000 20 |||
      instGet inst 0b00000000000000000000111100000000 7) 13

def instStoreImm (inst : Word) : Word :=
  signExtend ((instGet inst funct7Mask 25 <<< 5) ||| instGet inst rdMask 7) 12

def instMagicHcf : Word := 0x0ff00513

/-- The format, op and immediate that the switch of `inst_decode` selects. -/
def instSelect (inst : Word) : InstFormat × InstOp × Word :=
  let opcode := instGet inst opcodeMask 0
  let funct3 := instGet inst funct3Mask 12
  let funct7 := instGet inst funct7Mask 25
  let imm := instGet inst immMask 20
  let rs2 := instGet inst rs2Mask 20
  let opc0 := opcode
  let opc1 := opc0 ||| (funct3 <<< 7)
  let opc2 := opc1 ||| (instGet funct7 0b0100000 5 <<< 10)
  let immediate := signExtend imm 12
  if opcode = Opcode.imm ∨ opcode = Opcode.load ∨ opcode = Opcode.jalr then
    (.i, opc1,
      if opc1 = InstOp.slli ∧ opc1 = InstOp.srli then rs2
      else if opc1 = InstOp.sltiu then imm
      else immediate)
  else if opcode = Opcode.lui ∨ opcode = Opcode.auipc then (.u, opc0, inst &&& uImmMask)
  else if opcode = Opcode.op then (.r, opc2, immediate)
  else if opcode = Opcode.jal then (.j, opc0, instJalImm inst)
  else if opcode = Opcode.branch then (.b, opc1, instBranchImm inst)
  else if opcode = Opcode.store then (.s, opc1, instStoreImm inst)
  else (.unimp, InstOp.unimp, immediate)

def instDecode (inst : Word) : Inst :=
  let res := instSelect inst
  { op := if inst = instMagicHcf then InstOp.hcf else res.2.1
    opcode := instGet inst opcodeMask 0
    format := res.1
    immediate := res.2.2
    rs1 := (instGet inst rs1Mask 15).toNat
    rs2 := (instGet inst rs2Mask 20).toNat
    rd := (instGet inst rdMask 7).toNat
    width := instGet inst funct3Mask 12 }

def instType (inst : Inst) : RsType :=
  if inst.op = InstOp.hcf then .reservationStation
  else
    let opcode := inst.op &&& opcodeMask
    if opcode = Opcode.load then .loadBuffer
    else if opcode = Opcode.store then .storeBuffer
    else .reservationStation

def instRobOp (inst : Inst) : RobOp :=
  if inst.op = InstOp.hcf then .hcf
  else
    let opcode := inst.op &&& opcodeMask
    if opcode = Opcode.store then .store
    else if opcode = Opcode.branch then .branch
    else if opcode = Opcode.jalr then .jalr
    else .register

def instAluOp (inst : Inst) : AluOp :=
  if inst.op = InstOp.hcf then AluOp.add
  else (inst.op >>> 7) ||| (if inst.opcode = Opcode.branch then 0b10000 else 0)

def instLsOp (inst : Inst) : LsSize := inst.op >>> 7

end TomasuloCpu
