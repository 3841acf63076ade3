import TomasuloCpu.Hart
import TomasuloCpu.Library.Steps
import TomasuloCpu.Programs

set_option autoImplicit false

/-!
# The CPUs execute RV32I

Where the code gives each instruction its meaning, `fakecpu` is a hart of RV32I. A
program that a hart runs to HCF without storing to its own code runs the same way on
the CPU.
-/
namespace TomasuloCpu
open Clocked Labelled

namespace Hart

def Inside (h : Hart) : Rv32i → Prop
  | .imm op _ rs1 imm12 =>
    ∀ size ∈ op.loadSize, (h.x rs1 + imm12.signExtend 32).toNat + lsBytes size ≤ memSize
  | .store op rs1 _ imm12 =>
    (h.x rs1 + imm12.signExtend 32).toNat + lsBytes op.size ≤ memSize
  | _ => True

def AluExact (h : Hart) : Rv32i → Prop
  | .reg op _ rs1 rs2 => op.alu.Exact (h.x rs1) (h.x rs2)
  | _ => True

/-- An instruction that the code executes as RV32I does. -/
structure Exact (h : Hart) (i : Rv32i) : Prop where
  running : i.encode ≠ instMagicHcf
  decodable : i.Decodable
  alu : h.AluExact i
  inside : h.Inside i

structure Fetches (code : Addr → Prop) (h : Hart) (w : Word) : Prop where
  inside : h.pc.toNat + 4 ≤ memSize
  code : ∀ k < 4, code (h.pc + BitVec.ofNat 32 k)
  word : h.number h.pc 4 = w.toNat

def Keeps (code : Addr → Prop) (h : Hart) : Rv32i → Prop
  | .store op rs1 _ imm12 => ∀ k < lsBytes op.size,
    ¬code (h.x rs1 + imm12.signExtend 32 + BitVec.ofNat 32 k)
  | _ => True

structure Step (code : Addr → Prop) (h : Hart) (i : Rv32i) (h' : Hart) : Prop where
  fetches : h.Fetches code i.encode
  exact : h.Exact i
  keeps : h.Keeps code i
  exec : h' = h.exec i

end Hart

def Rv32i.opcode : Rv32i → BitVec 7
  | .imm op _ _ _ => op.opcode
  | .shift _ _ _ _ => 0b0010011
  | .store _ _ _ _ => 0b0100011
  | .reg _ _ _ _ => 0b0110011
  | .branch _ _ _ _ => 0b1100011
  | .upper op _ _ => op.opcode
  | .jal _ _ => 0b1101111

def BranchOp.alu : BranchOp → AluName
  | .beq => .beq
  | .bne => .bne
  | .blt => .blt
  | .bge => .bge
  | .bltu => .bltu
  | .bgeu => .bgeu

def Retired.SparesCode (code : Addr → Prop) : Retired → Prop
  | .store _ addr _ size => 0 < lsBytes size ∧ addr.toNat + lsBytes size ≤ memSize ∧
    ∀ k < lsBytes size, ¬code (addr + BitVec.ofNat 32 k)
  | _ => True

theorem toNat_add_ofNat {a : Addr} {k n : ℕ} (h : a.toNat + n ≤ memSize) (hk : k < n) :
    (a + BitVec.ofNat 32 k).toNat = a.toNat + k := by
  have hsize : memSize = 131072 := rfl
  rw [BitVec.toNat_add, BitVec.toNat_ofNat]
  omega

namespace FakeCpu

def hart (cpu : FakeCpu) : Hart where
  x r := cpu.get r.toNat
  mem a := cpu.data a.toNat
  pc := cpu.pc
  x_zero := rfl

variable {cpu : FakeCpu} {i : Rv32i} {rd : BitVec 5} {value : Word}

theorem number_hart {a : Addr} {n : ℕ} (h : a.toNat + n ≤ memSize) :
    cpu.hart.number a n = littleEndian cpu.data a.toNat n := by
  unfold Hart.number littleEndian
  congr 1
  apply List.map_congr_left
  intro k hk
  change (cpu.data (a + BitVec.ofNat 32 k).toNat).toNat = _
  rw [toNat_add_ofNat h (List.mem_range.1 hk)]

theorem store_hart {cpu' : FakeCpu} {a : Addr} {size : LsSize}
    (h : a.toNat + lsBytes size ≤ memSize) (hr : cpu'.regs = cpu.regs)
    (hd : cpu'.data = storedBytes cpu.data a.toNat (lsBytes size) value) :
    cpu'.hart = (cpu.hart.store a size value).goto cpu'.pc := by
  have hsize : memSize = 131072 := rfl
  apply Hart.ext
  · funext r
    change cpu'.get r.toNat = cpu.get r.toNat
    rw [get, get, hr]
  · funext b
    change cpu'.data b.toNat = if (b - a).toNat < lsBytes size then _ else cpu.data b.toNat
    rw [hd, storedBytes]
    have hiff : (b - a).toNat < lsBytes size ↔
        a.toNat ≤ b.toNat ∧ b.toNat < a.toNat + lsBytes size := by
      rw [BitVec.toNat_sub]
      omega
    by_cases hb : a.toNat ≤ b.toNat ∧ b.toNat < a.toNat + lsBytes size
    · have hsub : (b - a).toNat = b.toNat - a.toNat := by
        rw [BitVec.toNat_sub]
        omega
      rw [if_pos hb, if_pos (hiff.2 hb), hsub]
    · rw [if_neg hb, if_neg (mt hiff.1 hb)]
  · rfl

theorem writeReg_hart {inst : Inst} (hrd : inst.rd = rd.toNat) (nextPc : Addr) :
    (cpu.writeReg inst value nextPc).hart = (cpu.hart.set rd value).goto nextPc := by
  have harch := (@arch_writeReg cpu inst value nextPc).1
  apply Hart.ext
  · funext r
    have hget := Arch.get_set cpu.arch r.toNat inst.rd value
    rw [← harch, hrd] at hget
    have hr : (r.toNat : ℤ) = rd.toNat ↔ r = rd := by
      rw [Int.natCast_inj]
      exact BitVec.toNat_inj
    have h0 : (r.toNat : ℤ) ≠ 0 ↔ r ≠ 0 := by
      rw [Ne, Int.natCast_eq_zero, Ne, ← BitVec.toNat_inj]
      rfl
    exact hget.trans (if_congr (and_congr hr h0) rfl rfl)
  · have hdata : (cpu.writeReg inst value nextPc).data = cpu.data := by
      unfold writeReg set
      split_ifs <;> rfl
    funext a
    exact congrFun hdata a.toNat
  · rfl

theorem address_hart (cpu : FakeCpu) {inst : Inst} {rs1 : BitVec 5} {imm12 : BitVec 12}
    (hrs1 : inst.rs1 = rs1.toNat) (himm : inst.immediate = imm12.signExtend 32) :
    inst.immediate + cpu.get inst.rs1 = cpu.hart.x rs1 + imm12.signExtend 32 := by
  rw [himm, hrs1, BitVec.add_comm]
  rfl

structure Executes (cpu : FakeCpu) (i : Rv32i) (cpu' : FakeCpu) : Prop where
  hart : cpu'.hart = cpu.hart.exec i
  hcf : cpu'.hcf = cpu.hcf
  executed : ∃ e, cpu'.executed = cpu.executed ++ [e] ∧
    ∀ code, cpu.hart.Keeps code i → e.SparesCode code

theorem executes_writeReg {inst : Inst} {nextPc : Addr} (hrd : inst.rd = rd.toNat)
    (he : cpu.hart.exec i = (cpu.hart.set rd value).goto nextPc) :
    cpu.Executes i (cpu.writeReg inst value nextPc) where
  hart := (writeReg_hart hrd nextPc).trans he.symm
  hcf := arch_writeReg.2
  executed := ⟨_, rfl, fun _ _ => trivial⟩

variable [WideShift]

/-- Where `alu_execute` is exact, it gives the result on this target too. -/
theorem aluExecute_exact {a : AluName} {value1 value2 : Word} (h : a.Exact value1 value2) :
    aluExecute a.op value1 value2 = some (a.result value1 value2) := by
  rw [aluExecute_eq]
  cases a with
  | sll | srl =>
    have hk : value2.toNat < 32 := h
    simp [shiftLeft, shiftRight, AluName.result, hk, Nat.mod_eq_of_lt hk]
  | sra =>
    obtain ⟨hk, hm⟩ := h
    have hzero : value2 = 0 → value2.toNat = 0 := fun h => by simp [h]
    simp only [signedRshift, AluName.result, hk, ↓reduceIte, Nat.mod_eq_of_lt hk]
    exact congrArg some ((shiftLeft_eq_sshiftRight_iff hk).2 (hm.imp_left hzero))
  | _ => rfl

omit [WideShift] in
theorem loadSize_fields {op : ImmOp} {size : LsSize} (h : op.loadSize = some size) :
    op.opcode.setWidth 32 = Opcode.load ∧ op.funct3.setWidth 32 = size ∧ size ∈ loadSizes := by
  cases op <;> cases h <;> decide

omit [WideShift] in
theorem alu_fields {op : ImmOp} (hj : op ≠ .jalr) (h : op.loadSize = none) :
    op.opcode.setWidth 32 = Opcode.imm ∧
      (op.const ≠ InstOp.hcf ∧ op.const >>> 7 = op.alu.op) ∧
      ∀ value1 value2, op.alu.Exact value1 value2 := by
  cases op <;> first
    | contradiction
    | exact ⟨by decide, by decide, fun _ _ => trivial⟩

omit [WideShift] in
theorem instAluOp_eq {inst : Inst} {op : InstOp} {a : AluName} (ho : inst.op = op)
    (hop : op ≠ InstOp.hcf ∧ op >>> 7 = a.op) (hb : inst.opcode ≠ Opcode.branch) :
    instAluOp inst = a.op := by
  rw [instAluOp, ho, if_neg hop.1, hop.2, if_neg hb]
  exact BitVec.or_zero

section
variable {inst : Inst} {rs1 rs2 : BitVec 5}

theorem execute_imm {op : ImmOp} {imm12 : BitVec 12}
    (dec : (Rv32i.imm op rd rs1 imm12).Decoded inst) (ho : inst.opcode = op.opcode.setWidth 32)
    (hw : inst.width = op.funct3.setWidth 32) (hi : cpu.hart.Inside (.imm op rd rs1 imm12)) :
    ∃ cpu', cpu.execute inst = some cpu' ∧ cpu.Executes (.imm op rd rs1 imm12) cpu' := by
  obtain ⟨hrd, hrs1, himm⟩ := dec.operands
  have haddr := cpu.address_hart hrs1 himm
  by_cases hj : op = .jalr
  · subst hj
    refine ⟨cpu.writeReg inst (cpu.pc + 4) ((inst.immediate + cpu.get inst.rs1) &&& ~~~(1 : Word)),
      ?_, executes_writeReg hrd ?_⟩
    · rw [execute, ho]
      rfl
    · rw [haddr]
      rfl
  · cases hl : op.loadSize with
    | some size =>
      obtain ⟨hload, hsize, hmem⟩ := loadSize_fields hl
      have hget : memGetSz cpu.data (inst.immediate + cpu.get inst.rs1) inst.width =
          some (cpu.hart.load (cpu.hart.x rs1 + imm12.signExtend 32) size) := by
        rw [haddr, hw, hsize, memGetSz_eq _ hmem, Hart.load, number_hart (hi size hl)]
      refine ⟨_, by rw [execute, if_pos (ho.trans hload), hget]; rfl, executes_writeReg hrd ?_⟩
      simp only [Hart.exec, Hart.immValue, if_neg hj, hl]
      rfl
    | none =>
      obtain ⟨himmop, halu, hexact⟩ := alu_fields hj hl
      have hopc := ho.trans himmop
      have hres : aluExecute (instAluOp inst) (cpu.get inst.rs1) inst.immediate =
          some (op.alu.result (cpu.hart.x rs1) (imm12.signExtend 32)) := by
        rw [instAluOp_eq dec.op halu (by rw [hopc]; decide), hrs1, himm]
        exact aluExecute_exact (hexact _ _)
      refine ⟨_, by rw [execute, hopc, hres]; rfl, executes_writeReg hrd ?_⟩
      simp only [Hart.exec, Hart.immValue, if_neg hj, hl]
      rfl

theorem execute_shift {op : ShiftOp} {shamt : BitVec 5}
    (dec : (Rv32i.shift op rd rs1 shamt).Decoded inst) (ho : inst.opcode = Opcode.imm)
    (hd : (Rv32i.shift op rd rs1 shamt).Decodable) :
    ∃ cpu', cpu.execute inst = some cpu' ∧ cpu.Executes (.shift op rd rs1 shamt) cpu' := by
  obtain ⟨hrd, hrs1, himm⟩ := dec.operands
  have hsmall : (shamt.setWidth 32).toNat < 32 := by
    rw [BitVec.toNat_setWidth]
    omega
  have halu : (op.const ≠ InstOp.hcf ∧ op.const >>> 7 = op.alu.op) ∧
      op.alu.Exact (cpu.hart.x rs1) (shamt.setWidth 32) := by
    cases op with
    | slli => exact ⟨by decide, hsmall⟩
    | srli => exact ⟨by decide, hsmall⟩
    | srai => exact absurd hd id
  have hres : aluExecute (instAluOp inst) (cpu.get inst.rs1) inst.immediate =
      some (op.alu.result (cpu.hart.x rs1) (shamt.setWidth 32)) := by
    rw [instAluOp_eq dec.op halu.1 (by rw [ho]; decide), hrs1, himm]
    exact aluExecute_exact halu.2
  exact ⟨_, by rw [execute, ho, hres]; rfl, executes_writeReg hrd rfl⟩

theorem execute_reg {op : RegOp} (dec : (Rv32i.reg op rd rs1 rs2).Decoded inst)
    (ho : inst.opcode = Opcode.op) (ha : cpu.hart.AluExact (.reg op rd rs1 rs2)) :
    ∃ cpu', cpu.execute inst = some cpu' ∧ cpu.Executes (.reg op rd rs1 rs2) cpu' := by
  obtain ⟨hrd, hrs1, hrs2⟩ := dec.operands
  have halu : op.const ≠ InstOp.hcf ∧ op.const >>> 7 = op.alu.op := by
    cases op <;> decide
  have hres : aluExecute (instAluOp inst) (cpu.get inst.rs1) (cpu.get inst.rs2) =
      some (op.alu.result (cpu.hart.x rs1) (cpu.hart.x rs2)) := by
    rw [instAluOp_eq dec.op halu (by rw [ho]; decide), hrs1, hrs2]
    exact aluExecute_exact ha
  exact ⟨_, by rw [execute, ho, hres]; rfl, executes_writeReg hrd rfl⟩

theorem execute_upper {op : UpperOp} {imm20 : BitVec 20}
    (dec : (Rv32i.upper op rd imm20).Decoded inst) (ho : inst.opcode = op.opcode.setWidth 32) :
    ∃ cpu', cpu.execute inst = some cpu' ∧ cpu.Executes (.upper op rd imm20) cpu' := by
  obtain ⟨hrd, himm⟩ := dec.operands
  cases op with
  | lui =>
    refine ⟨_, by rw [execute, ho]; rfl, executes_writeReg hrd ?_⟩
    rw [himm]
    rfl
  | auipc =>
    refine ⟨_, by rw [execute, ho]; rfl, executes_writeReg hrd ?_⟩
    rw [himm, BitVec.add_comm]
    rfl

theorem execute_jal {offset : BitVec 20} (dec : (Rv32i.jal rd offset).Decoded inst)
    (ho : inst.opcode = Opcode.jal) :
    ∃ cpu', cpu.execute inst = some cpu' ∧ cpu.Executes (.jal rd offset) cpu' := by
  obtain ⟨hrd, himm⟩ := dec.operands
  refine ⟨_, by rw [execute, ho]; rfl, executes_writeReg hrd ?_⟩
  rw [himm, BitVec.add_comm (BitVec.signExtend 32 _)]
  rfl

theorem execute_store {op : StoreOp} {imm12 : BitVec 12}
    (dec : (Rv32i.store op rs1 rs2 imm12).Decoded inst) (ho : inst.opcode = Opcode.store)
    (hw : inst.width = op.funct3.setWidth 32) (hi : cpu.hart.Inside (.store op rs1 rs2 imm12)) :
    ∃ cpu', cpu.execute inst = some cpu' ∧ cpu.Executes (.store op rs1 rs2 imm12) cpu' := by
  obtain ⟨hrs1, hrs2, himm⟩ := dec.operands
  have haddr := cpu.address_hart hrs1 himm
  have hsize : op.funct3.setWidth 32 = op.size ∧ op.size ∈ storeSizes ∧ 0 < lsBytes op.size := by
    cases op <;> decide
  have hset : memSetSz cpu.data (inst.immediate + cpu.get inst.rs1) (cpu.get inst.rs2) inst.width =
      some (storedBytes cpu.data (cpu.hart.x rs1 + imm12.signExtend 32).toNat
        (lsBytes op.size) (cpu.hart.x rs2)) := by
    rw [haddr, hw, hsize.1, hrs2, memSetSz_eq _ _ hsize.2.1]
    rfl
  have hexec : cpu.execute inst = some
      { cpu with
        data := storedBytes cpu.data (cpu.hart.x rs1 + imm12.signExtend 32).toNat
          (lsBytes op.size) (cpu.hart.x rs2)
        pc := cpu.pc + 4
        executed := cpu.executed ++ [.store cpu.pc (inst.immediate + cpu.get inst.rs1)
          (cpu.get inst.rs2) inst.width] } := by
    rw [execute, ho, hset]
    rfl
  refine ⟨_, hexec, store_hart hi rfl rfl, rfl, _, rfl, ?_⟩
  intro code hk
  rw [haddr, hw, hsize.1]
  exact ⟨hsize.2.2, hi, hk⟩

omit [WideShift] in
theorem result_branch (op : BranchOp) (value1 value2 : Word) :
    op.alu.result value1 value2 = boolWord (op.taken value1 value2) := by
  cases op with
  | bne => by_cases h : value1 = value2 <;> simp [BranchOp.alu, BranchOp.taken, AluName.result,
      boolWord, h]
  | _ => simp [BranchOp.alu, BranchOp.taken, AluName.result, boolWord]

theorem execute_branch {op : BranchOp} {offset : BitVec 12}
    (dec : (Rv32i.branch op rs1 rs2 offset).Decoded inst) (ho : inst.opcode = Opcode.branch) :
    ∃ cpu', cpu.execute inst = some cpu' ∧ cpu.Executes (.branch op rs1 rs2 offset) cpu' := by
  obtain ⟨hrs1, hrs2, himm⟩ := dec.operands
  have halu : instAluOp inst = op.alu.op ∧
      op.alu.Exact (cpu.hart.x rs1) (cpu.hart.x rs2) := by
    have hop : inst.op = op.const := dec.op
    rw [instAluOp, hop, ho]
    cases op <;> exact ⟨by decide, trivial⟩
  have hres : aluExecute (instAluOp inst) (cpu.get inst.rs1) (cpu.get inst.rs2) =
      some (boolWord (op.taken (cpu.hart.x rs1) (cpu.hart.x rs2))) := by
    rw [halu.1, hrs1, hrs2, ← result_branch]
    exact aluExecute_exact halu.2
  have hpc : (if boolWord (op.taken (cpu.hart.x rs1) (cpu.hart.x rs2)) ≠ 0 then
      inst.immediate + cpu.pc else cpu.pc + 4) =
        (cpu.hart.exec (.branch op rs1 rs2 offset)).pc := by
    rw [himm, BitVec.add_comm]
    simp only [Hart.exec, Hart.goto]
    cases op.taken (cpu.hart.x rs1) (cpu.hart.x rs2)
    · rfl
    · rfl
  have hexec : cpu.execute inst = some
      { cpu with
        pc := (cpu.hart.exec (.branch op rs1 rs2 offset)).pc
        executed := cpu.executed ++ [.jump cpu.pc] } := by
    rw [execute, ho, hres, ← hpc]
    rfl
  exact ⟨_, hexec, rfl, rfl, _, rfl, fun _ _ => trivial⟩

end

omit [WideShift] in
/-- Apart from SRAI and some SLTIU, the decoder finds the fields of every instruction. -/
theorem decoded_of_encode (hm : i.encode ≠ instMagicHcf) (hd : i.Decodable) :
    i.Decoded (instDecode i.encode) := by
  have hop := instDecode_op hm
  cases i with
  | imm op rd rs1 imm12 => exact (op.decoded_iff rd rs1 imm12 hm).2 hd
  | shift op rd rs1 shamt => exact (op.decoded_iff rd rs1 shamt hm).2 hd
  | store op rs1 rs2 imm12 =>
    have hsel := instSelect_store op rs1 rs2 imm12
    exact ⟨hop.trans (congrArg (·.2.1) hsel), congrArg (·.1) hsel,
      (instDecode_regs ..).2.1, (instDecode_regs ..).2.2, congrArg (·.2.2) hsel⟩
  | reg op rd rs1 rs2 =>
    have hsel := instSelect_reg op rd rs1 rs2
    exact ⟨hop.trans hsel.2, hsel.1, instDecode_regs ..⟩
  | branch op rs1 rs2 offset =>
    have hsel := instSelect_branch op rs1 rs2 offset
    exact ⟨hop.trans (congrArg (·.2.1) hsel), congrArg (·.1) hsel,
      (instDecode_regs ..).2.1, (instDecode_regs ..).2.2, congrArg (·.2.2) hsel⟩
  | upper op rd imm20 =>
    have hsel := instSelect_upper_encode op rd imm20
    exact ⟨hop.trans (congrArg (·.2.1) hsel), congrArg (·.1) hsel, (instDecode_regs ..).1,
      congrArg (·.2.2) hsel⟩
  | jal rd offset =>
    have hsel := instSelect_jal rd offset
    exact ⟨hop.trans (congrArg (·.2.1) hsel), congrArg (·.1) hsel, (instDecode_regs ..).1,
      congrArg (·.2.2) hsel⟩

omit [WideShift] in
theorem instDecode_opcode (i : Rv32i) : (instDecode i.encode).opcode = i.opcode.setWidth 32 := by
  cases i <;> exact instGet_opcode ..

omit [WideShift] in
theorem opcode_known (i : Rv32i) : i.opcode.setWidth 32 ∈ opcodes := by
  have himm (op : ImmOp) : op.opcode.setWidth 32 ∈ opcodes := by cases op <;> decide
  have hupper (op : UpperOp) : op.opcode.setWidth 32 ∈ opcodes := by cases op <;> decide
  have hfixed : ∀ opcode ∈ [0b0010011#7, 0b0100011#7, 0b0110011#7, 0b1100011#7, 0b1101111#7],
      opcode.setWidth 32 ∈ opcodes := by decide
  cases i with
  | imm op => exact himm op
  | upper op => exact hupper op
  | _ => exact hfixed _ (by simp [Rv32i.opcode])

omit [WideShift] in
theorem word_of_fetches {code : Addr → Prop} {w : Word} (hf : cpu.hart.Fetches code w) :
    memGetInst cpu.data cpu.pc = w := by
  have hnum : littleEndian cpu.data cpu.pc.toNat 4 = w.toNat :=
    (number_hart hf.inside).symm.trans hf.word
  rw [memGetInst, bytesAt_eq_littleEndian, hnum, BitVec.ofNat_toNat, BitVec.setWidth_eq]

theorem executes_of_exact (he : cpu.hart.Exact i) :
    ∃ cpu', cpu.execute (instDecode i.encode) = some cpu' ∧ cpu.Executes i cpu' := by
  have dec := decoded_of_encode he.running he.decodable
  cases i with
  | imm op rd rs1 imm12 =>
    exact execute_imm dec (instDecode_opcode _) (instGet_funct3 ..) he.inside
  | shift op rd rs1 shamt => exact execute_shift dec (instDecode_opcode _) he.decodable
  | store op rs1 rs2 imm12 =>
    exact execute_store dec (instDecode_opcode _) (instGet_funct3 ..) he.inside
  | reg op rd rs1 rs2 => exact execute_reg dec (instDecode_opcode _) he.alu
  | branch op rs1 rs2 offset => exact execute_branch dec (instDecode_opcode _)
  | upper op rd imm20 => exact execute_upper dec (instDecode_opcode _)
  | jal rd offset => exact execute_jal dec (instDecode_opcode _)

/-- Where the code follows RV32I, a tick executes the instruction at the pc. -/
theorem executes_of_fetches {code : Addr → Prop} (hf : cpu.hart.Fetches code i.encode)
    (he : cpu.hart.Exact i) : ∃ cpu', cpu.tick = some cpu' ∧ cpu.Executes i cpu' := by
  have hknown : (instDecode i.encode).opcode ∈ opcodes := instDecode_opcode i ▸ opcode_known i
  have hmagic := op_ne_magic (instSelect_op _ hknown) hknown
  rw [← instDecode_op he.running] at hmagic
  have htick : cpu.tick = cpu.execute (instDecode i.encode) := by
    rw [tick, word_of_fetches hf]
    exact (if_neg hmagic.1).trans (if_neg hmagic.2)
  rw [htick]
  exact executes_of_exact he

omit [WideShift] in
theorem loadSize_of_opcode {op : ImmOp} (h : op.opcode.setWidth 32 = Opcode.load) :
    ∃ size ∈ op.loadSize, op.funct3.setWidth 32 = size := by
  cases op <;> first
    | exact absurd h (by decide)
    | exact ⟨_, rfl, by decide⟩

omit [WideShift] in
theorem access_inside (he : cpu.hart.Exact i) (hw : memGetInst cpu.data cpu.pc = i.encode) :
    ∀ a ∈ cpu.access, a.1.toNat + lsBytes a.2 ≤ memSize := by
  have dec := decoded_of_encode he.running he.decodable
  intro a ha
  simp only [access, hw] at ha
  split_ifs at ha with hacc
  · obtain rfl := Option.some.inj ha
    rw [instDecode_opcode] at hacc
    cases i with
    | imm op rd rs1 imm12 =>
      obtain ⟨-, hrs1, himm⟩ := dec.operands
      rcases hacc with hacc | hacc
      · obtain ⟨size, hl, hsize⟩ := loadSize_of_opcode hacc
        have hwidth : (instDecode (Rv32i.imm op rd rs1 imm12).encode).width = size :=
          (instGet_funct3 ..).trans hsize
        rw [cpu.address_hart hrs1 himm, hwidth]
        exact he.inside size hl
      · change op.opcode.setWidth 32 = Opcode.store at hacc
        cases op <;> exact absurd hacc (by decide)
    | store op rs1 rs2 imm12 =>
      obtain ⟨hrs1, -, himm⟩ := dec.operands
      have hwidth : (instDecode (Rv32i.store op rs1 rs2 imm12).encode).width = op.size :=
        (instGet_funct3 ..).trans (by cases op <;> decide)
      rw [cpu.address_hart hrs1 himm, hwidth]
      exact he.inside
    | upper op =>
      simp only [Rv32i.opcode] at hacc
      cases op <;> exact absurd hacc (by decide)
    | _ =>
      simp only [Rv32i.opcode] at hacc
      exact absurd hacc (by decide)
  · cases ha

omit [WideShift] in
/-- What has left the code alone has not changed the word at a pc inside it. -/
theorem spares_of_code {code : Addr → Prop} {h : Hart} {w : Word} {e : Retired}
    (hs : e.SparesCode code) (hf : h.Fetches code w) : Spares h.pc e := by
  cases e with
  | write | jump => trivial
  | store pc addr value size =>
    obtain ⟨hpos, hin, hspare⟩ := hs
    have hpc := hf.inside
    by_contra hover
    rw [Spares, Apart] at hover
    rcases Nat.le_total addr.toNat h.pc.toNat with hle | hle
    · have hk : h.pc.toNat - addr.toNat < lsBytes size := by omega
      refine hspare _ hk ?_
      have heq : addr + BitVec.ofNat 32 (h.pc.toNat - addr.toNat) = h.pc + BitVec.ofNat 32 0 := by
        apply BitVec.eq_of_toNat_eq
        rw [toNat_add_ofNat hin hk, toNat_add_ofNat hpc (by omega)]
        omega
      rw [heq]
      exact hf.code 0 (by omega)
    · have hk : addr.toNat - h.pc.toNat < 4 := by omega
      refine hspare 0 hpos ?_
      have heq : addr + BitVec.ofNat 32 0 = h.pc + BitVec.ofNat 32 (addr.toNat - h.pc.toNat) := by
        apply BitVec.eq_of_toNat_eq
        rw [toNat_add_ofNat hin hpos, toNat_add_ofNat hpc hk]
        omega
      rw [heq]
      exact hf.code _ hk

/-- `fakecpu` is at a state of the hart, with its code as it was. -/
structure At (code : Addr → Prop) (h : Hart) (cpu : FakeCpu) : Prop where
  hart : cpu.hart = h
  running : cpu.hcf = false
  executed : ∀ e ∈ cpu.executed, e.SparesCode code

/-- A tick at a word that is the one of the image. -/
structure Ticks (cpu : FakeCpu) (i : Rv32i) (cpu' : FakeCpu) : Prop where
  inside : cpu.InRange
  original : cpu.FetchesOriginal
  running : cpu.hcf = false
  tick : cpu.tick = some cpu'
  executed : cpu'.executed.length = cpu.executed.length + 1

omit [WideShift] in
theorem At.original {code : Addr → Prop} {h : Hart} {w : Word} (ha : At code h cpu)
    (hf : h.Fetches code w) : cpu.FetchesOriginal := by
  intro e he
  have hpc : cpu.pc = h.pc := congrArg Hart.pc ha.hart
  rw [hpc]
  exact spares_of_code (ha.executed e he) hf

/-- `fakecpu` simulates the hart. -/
theorem simulation (code : Addr → Prop) : Simulation (At code) (Hart.Step code) Ticks := by
  intro h cpu i h' ha hs
  obtain ⟨cpu', ht, hx⟩ := executes_of_fetches (ha.hart ▸ hs.fetches) (ha.hart ▸ hs.exact)
  obtain ⟨e, he, hspare⟩ := hx.executed
  have hin := access_inside (ha.hart ▸ hs.exact) (word_of_fetches (ha.hart ▸ hs.fetches))
  refine ⟨cpu', ⟨⟨(ha.hart ▸ hs.fetches).inside, hin⟩, ha.original hs.fetches, ha.running, ht,
    by rw [he, List.length_append]; rfl⟩, ?_⟩
  refine ⟨?_, hx.hcf.trans ha.running, fun d hd => ?_⟩
  · rw [hx.hart, ha.hart, hs.exec]
  · rw [he, List.mem_append, List.mem_singleton] at hd
    rcases hd with hd | rfl
    · exact ha.executed d hd
    · exact hspare code (ha.hart ▸ hs.keeps)

omit [WideShift] in
theorem At.inRange {code : Addr → Prop} {h : Hart} (ha : At code h cpu)
    (hh : h.Fetches code instMagicHcf) : cpu.InRange := by
  refine ⟨(ha.hart ▸ hh).inside, fun a hm => ?_⟩
  rw [access, word_of_fetches (ha.hart ▸ hh)] at hm
  cases hm

theorem At.halts {code : Addr → Prop} {h : Hart} (ha : At code h cpu)
    (hh : h.Fetches code instMagicHcf) : cpu.tick = some { cpu with hcf := true } := by
  have hop : (instDecode instMagicHcf).op = InstOp.hcf := by decide
  rw [tick, word_of_fetches (ha.hart ▸ hh)]
  exact if_pos hop

theorem run_of_steps {is : List Rv32i} {cpu' : FakeCpu} (hs : Steps Ticks cpu is cpu') :
    run is.length cpu = some cpu' ∧ cpu'.executed.length = cpu.executed.length + is.length := by
  induction hs with
  | nil => exact ⟨rfl, rfl⟩
  | cons first rest ih =>
    obtain ⟨hrun, hlen⟩ := ih
    have hlen' := first.executed
    refine ⟨?_, by rw [List.length_cons]; omega⟩
    rw [List.length_cons, run, if_neg (by simp [first.running]), first.tick, Option.bind_some, hrun]

theorem reaches_of_steps {is : List Rv32i} {cpu' : FakeCpu} (hs : Steps Ticks cpu is cpu')
    (hin : cpu'.InRange) (ho : cpu'.FetchesOriginal)
    (ht : cpu'.tick = some { cpu' with hcf := true }) :
    reaches (fun cpu => cpu.InRange ∧ cpu.FetchesOriginal) (is.length + 1) cpu = true := by
  induction hs with
  | nil => simp [reaches, hin, ho, ht]
  | cons first rest ih =>
    have hrest := ih hin ho ht
    rw [List.length_cons, reaches]
    simp [first.inside, first.original, first.tick, hrest]

end FakeCpu

variable [WideShift] {image : MemData} {is : List Rv32i} {h : Hart} {code : Addr → Prop}

def Hart.start (image : MemData) : Hart := Hart.boot fun a => image a.toNat

omit [WideShift] in
theorem at_fakeCpuCreate : FakeCpu.At code (Hart.start image) (fakeCpuCreate image) where
  hart := by
    apply Hart.ext
    · funext r
      exact ite_self _
    · rfl
    · rfl
  running := rfl
  executed := fun _ he => by cases he

/-- What `fakecpu` does with a program that a hart runs to HCF. -/
theorem fakeCpu_of_steps (hs : Steps (Hart.Step code) (Hart.start image) is h)
    (hh : h.Fetches code instMagicHcf) :
    ∃ cpu, FakeCpu.At code h cpu ∧ FakeCpu.run is.length (fakeCpuCreate image) = some cpu ∧
      cpu.executed.length = is.length ∧ cpu.tick = some { cpu with hcf := true } ∧
      (fakeCpuCreate image).Always fun cpu => cpu.InRange ∧ cpu.FetchesOriginal := by
  obtain ⟨cpu, hrun, ha⟩ := (FakeCpu.simulation code).steps at_fakeCpuCreate hs
  have hhalt := ha.halts hh
  obtain ⟨hn, hlen⟩ := FakeCpu.run_of_steps hrun
  refine ⟨cpu, ha, hn, hlen.trans (Nat.zero_add _), hhalt, ?_⟩
  exact FakeCpu.always_of_reaches
    (FakeCpu.reaches_of_steps hrun (ha.inRange hh) (ha.original hh) hhalt)

/-- A program that a hart runs to HCF without storing to its code ends `fakecpu` after
    as many instructions, in the state of the hart. -/
theorem fakecpu_executes_rv32i (hs : Steps (Hart.Step code) (Hart.start image) is h)
    (hh : h.Fetches code instMagicHcf) :
    ∃ cpu, FakeCpu.run (is.length + 1) (fakeCpuCreate image) = some cpu ∧ cpu.hcf = true ∧
      cpu.executed.length = is.length ∧ cpu.hart = h := by
  obtain ⟨cpu, ha, hrun, hlen, ht, -⟩ := fakeCpu_of_steps hs hh
  exact ⟨_, (FakeCpu.run_succ hrun ha.running).trans ht, rfl, hlen, ha.hart⟩

def branchInsts : List Rv32i := [.branch .bne 0 0 4, .imm .addi 1 0 1, .imm .addi 2 0 2]

def branchHart : Hart := branchInsts.foldl Hart.exec (Hart.start (imageOf branchProgram))

omit [WideShift] in
theorem steps_branch : Steps (Hart.Step fun a => a.toNat < 16)
    (Hart.start (imageOf branchProgram)) branchInsts branchHart :=
  .cons ⟨⟨by decide, by decide, by decide +kernel⟩,
      ⟨by decide, trivial, trivial, trivial⟩, trivial, rfl⟩
    (.cons ⟨⟨by decide +kernel, by decide +kernel, by decide +kernel⟩,
        ⟨by decide, trivial, trivial, fun _ h => by cases h⟩, trivial, rfl⟩
      (.cons ⟨⟨by decide +kernel, by decide +kernel, by decide +kernel⟩,
          ⟨by decide, trivial, trivial, fun _ h => by cases h⟩, trivial, rfl⟩ .nil))

omit [WideShift] in
theorem fetches_branch : branchHart.Fetches (fun a => a.toNat < 16) instMagicHcf :=
  ⟨by decide +kernel, by decide +kernel, by decide +kernel⟩

omit [WideShift] in
theorem fakecpu_executes_rv32i_branch :
    ∃ cpu, @FakeCpu.run .masked 4 (fakeCpuCreate (imageOf branchProgram)) = some cpu ∧
      cpu.hcf = true ∧ cpu.executed.length = 3 ∧ cpu.hart = branchHart :=
  @fakecpu_executes_rv32i .masked (imageOf branchProgram) branchInsts branchHart
    (fun a => a.toNat < 16) steps_branch fetches_branch

section
variable {garbage : ℤ → ℤ → ℤ} {hist : ℤ} {os : List Schedule} {m : Machine} {cpu : FakeCpu}

theorem simulates_of_steps (hs : Steps (Hart.Step code) (Hart.start image) is h)
    (hh : h.Fetches code instMagicHcf)
    (hw : LoopAll (fun o c => PushesForemost o c ∧ TakesLinks o c) os
      (cpuCreate image garbage hist))
    (hl : cpuLoop os (machineCreate image garbage hist) = .ok m)
    (hn : (is.length + 1) * commitBound ≤ os.length) :
    m.cpu.plain.hcf = true ∧ m.cpu.plain.retired.length = is.length ∧
      Refines image (latch m.cpu) m.cpu.plain ∧
      ∃ cpu, FakeCpu.At code h cpu ∧ Simulates image (latch m.cpu) m.cpu.plain cpu := by
  obtain ⟨cpu', hat, hrun, -, ht, ha⟩ := fakeCpu_of_steps hs hh
  have hend : FakeCpu.run (is.length + 1) (fakeCpuCreate image) = some { cpu' with hcf := true } :=
    (FakeCpu.run_succ hrun hat.running).trans ht
  have ha := ha.imp fun _ h => h.2
  obtain ⟨ref, ⟨cpu, sim⟩, hdone⟩ := simulates_of_cpuLoop ha hw hl hn
  have hlt := sim.lt_of_hcf hend rfl
  have hhcf : m.cpu.plain.hcf = true := hdone.resolve_left (by omega)
  have hnext := (FakeCpu.run_succ sim.run sim.running).trans
    (ref.tick_of_hcf sim (sim.always ha).1 hhcf)
  -- neither of the two has halted before the other
  have hlen : m.cpu.plain.retired.length = is.length := by
    by_contra hne
    obtain ⟨k, hk⟩ := Nat.exists_eq_add_of_lt (show m.cpu.plain.retired.length < is.length by omega)
    have hrest := FakeCpu.run_add_of_hcf (m := k) hnext rfl
    rw [Nat.add_right_comm, ← hk, hrun, Option.some.injEq] at hrest
    have hrunning := hat.running
    rw [hrest] at hrunning
    cases hrunning
  obtain rfl : cpu' = cpu := by
    have hrun' := sim.run
    rw [hlen, hrun] at hrun'
    exact Option.some.inj hrun'
  exact ⟨hhcf, hlen, ref, cpu', hat, sim⟩

theorem regStoreGet_of_at (ha : FakeCpu.At code h cpu)
    (sim : Simulates image (latch m.cpu) m.cpu.plain cpu)
    (hl : cpuLoop os (machineCreate image garbage hist) = .ok m) (hh : m.cpu.plain.hcf = true)
    (r : BitVec 5) : regStoreGet m.read r.toNat = h.x r := by
  have hread := congrFun (read_of_cpuLoop hl hh) r.toNat
  have hregs := congrFun (congrArg Arch.regs sim.arch) (r.toNat : RegId)
  rw [← ha.hart, regStoreGet, hread]
  exact (congrArg (fun v => if (r.toNat : RegId) = 0 then (0 : Word) else v) hregs).symm

/-- Where fetch and loads are inside memory, the CPU accesses nothing out of bounds. The
    program comes to HCF in time, after as many instructions; what is left to be read are
    the registers of the hart, and the memory, with the stores that wait, is its memory.
    The loop gets there if it dispatches executable words. -/
theorem cpu_executes_rv32i (ht : InTable hist)
    (hs : Steps (Hart.Step code) (Hart.start image) is h) (hh : h.Fetches code instMagicHcf)
    (hw : LoopAll (fun o c => PushesForemost o c ∧ TakesLinks o c) os
      (cpuCreate image garbage hist))
    (hin : LoopAll (fun _ c => (latch c).ReadsInside) os (cpuCreate image garbage hist))
    (hn : (is.length + 1) * commitBound ≤ os.length) :
    LoopAll AccessesInside os (cpuCreate image garbage hist) ∧
    (LoopAll DispatchesExecutable os (cpuCreate image garbage hist) →
      ∃ m, cpuLoop os (machineCreate image garbage hist) = .ok m) ∧
    ∀ m, cpuLoop os (machineCreate image garbage hist) = .ok m →
      m.cpu.plain.hcf = true ∧ m.cpu.plain.retired.length = is.length ∧
      (∀ r : BitVec 5, regStoreGet m.read r.toNat = h.x r) ∧
      ∀ a : Addr, applyStores m.cpu.plain.data (pendingStores (latch m.cpu) m.cpu.plain) a.toNat =
        h.mem a := by
  obtain ⟨-, -, -, -, -, hgoes⟩ := fakeCpu_of_steps hs hh
  refine ⟨loopAll_accesses ht hgoes hw hin, cpuLoop_of_always (hgoes.imp fun _ h => h.2) hw,
    fun m hl => ?_⟩
  obtain ⟨hhcf, hlen, ref, cpu, ha, sim⟩ := simulates_of_steps hs hh hw hl hn
  refine ⟨hhcf, hlen, regStoreGet_of_at ha sim hl hhcf, fun a => ?_⟩
  have hdata : cpu.data = m.cpu.plain.memory image := congrArg Arch.data sim.arch
  rw [memory_of_pending ref.loads.data ref.stores, ← hdata, ← ha.hart]
  rfl

end

omit [WideShift] in
/-- The instructions that were fetched past the branch are squashed. -/
theorem cpu_executes_rv32i_branch :
    (loopMachine 896 (bootMachine 0 branchProgram)).cpu.plain.hcf = true ∧
      (loopMachine 896 (bootMachine 0 branchProgram)).cpu.plain.retired.length = 3 ∧
      (∀ r : BitVec 5, regStoreGet (loopMachine 896 (bootMachine 0 branchProgram)).read r.toNat =
        branchHart.x r) ∧
      ∀ a : Addr, applyStores (loopMachine 896 (bootMachine 0 branchProgram)).cpu.plain.data
          (pendingStores (latch (loopMachine 896 (bootMachine 0 branchProgram)).cpu)
            (loopMachine 896 (bootMachine 0 branchProgram)).cpu.plain) a.toNat =
        branchHart.mem a :=
  (@cpu_executes_rv32i .masked (imageOf branchProgram) branchInsts branchHart
    (fun a => a.toNat < 16) (fun _ _ => 0) 0 (bootTicks 896) (by decide) steps_branch
    fetches_branch (by decide +kernel) (by decide +kernel) (by decide +kernel)).2.2 _
    (cpuLoop_boot (by decide +kernel))

end TomasuloCpu
