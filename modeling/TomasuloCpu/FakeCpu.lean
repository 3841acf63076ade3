import TomasuloCpu.Inst
import TomasuloCpu.Memory

set_option autoImplicit false

/-!
# The sequential CPU

`fakecpu.c`, with the executed instructions and their effects as a history
variable.
-/
namespace TomasuloCpu

inductive Retired where
  | write (pc : Addr) (dest : RegId) (value : Word)
  | store (pc : Addr) (addr : Addr) (value : Word) (size : LsSize)
  | jump (pc : Addr)
  deriving DecidableEq, Repr

structure FakeCpu where
  data : MemData
  regs : RegId → Word
  pc : Addr
  hcf : Bool
  executed : List Retired

def fakeCpuCreate (image : MemData) : FakeCpu where
  data := image
  regs := fun _ => 0
  pc := 0
  hcf := false
  executed := []

namespace FakeCpu

def get (cpu : FakeCpu) (reg : RegId) : Word := if reg = 0 then 0 else cpu.regs reg

def set (cpu : FakeCpu) (reg : RegId) (value : Word) : FakeCpu :=
  if reg = 0 then cpu else { cpu with regs := Function.update cpu.regs reg value }

/-- End of `fakecpu_tick` for an instruction that writes a register. -/
def writeReg (cpu : FakeCpu) (inst : Inst) (value : Word) (nextPc : Addr) : FakeCpu :=
  { cpu.set inst.rd value with
    pc := nextPc
    executed := cpu.executed ++ [.write cpu.pc inst.rd value] }

variable [WideShift]

def execute (cpu : FakeCpu) (inst : Inst) : Option FakeCpu :=
  let v1 := cpu.get inst.rs1
  let v2 := cpu.get inst.rs2
  let nextPc := cpu.pc + 4
  if inst.opcode = Opcode.load then
    (memGetSz cpu.data (inst.immediate + v1) inst.width).map fun v => cpu.writeReg inst v nextPc
  else if inst.opcode = Opcode.store then
    (memSetSz cpu.data (inst.immediate + v1) v2 inst.width).map fun data =>
      { cpu with
        data := data
        pc := nextPc
        executed := cpu.executed ++ [.store cpu.pc (inst.immediate + v1) v2 inst.width] }
  else if inst.opcode = Opcode.imm then
    (aluExecute (instAluOp inst) v1 inst.immediate).map fun v => cpu.writeReg inst v nextPc
  else if inst.opcode = Opcode.op then
    (aluExecute (instAluOp inst) v1 v2).map fun v => cpu.writeReg inst v nextPc
  else if inst.opcode = Opcode.auipc then
    some (cpu.writeReg inst (inst.immediate + cpu.pc) nextPc)
  else if inst.opcode = Opcode.lui then some (cpu.writeReg inst inst.immediate nextPc)
  else if inst.opcode = Opcode.branch then
    (aluExecute (instAluOp inst) v1 v2).map fun (v : Word) =>
      { cpu with
        pc := if v ≠ 0 then inst.immediate + cpu.pc else nextPc
        executed := cpu.executed ++ [.jump cpu.pc] }
  else if inst.opcode = Opcode.jalr then
    some (cpu.writeReg inst nextPc ((inst.immediate + v1) &&& ~~~(1 : Word)))
  else if inst.opcode = Opcode.jal then
    some (cpu.writeReg inst nextPc (inst.immediate + cpu.pc))
  else none

/-- `fakecpu_tick`; `none` where an assertion fails. -/
def tick (cpu : FakeCpu) : Option FakeCpu :=
  let inst := instDecode (memGetInst cpu.data cpu.pc)
  if inst.op = InstOp.hcf then some { cpu with hcf := true }
  else if inst.op = InstOp.unimp then none
  else cpu.execute inst

end FakeCpu

end TomasuloCpu
