import TomasuloCpu.FakeRun
import TomasuloCpu.Path
import TomasuloCpu.Stores

set_option autoImplicit false

/-!
# The sequential meaning of an entry

What the instruction of an entry computes from the registers and the memory that
its predecessors leave, and what it leaves itself.
-/
namespace TomasuloCpu
open Clocked

@[ext] structure Arch where
  regs : RegId → Word
  data : MemData

namespace Arch

def get (a : Arch) (x : RegId) : Word := if x = 0 then 0 else a.regs x

def set (a : Arch) (x : RegId) (value : Word) : Arch :=
  if x = 0 then a else { a with regs := Function.update a.regs x value }

def address (a : Arch) (inst : Inst) : Addr := inst.immediate + a.get inst.rs1

def operand1 (a : Arch) (inst : Inst) (pc : Addr) : Word :=
  if reads1 inst then a.get inst.rs1 else const1 inst pc

def operand2 (a : Arch) (inst : Inst) : Word :=
  if reads2 inst then a.get inst.rs2 else const2 inst

variable [WideShift]

/-- The result on the bus: of a JALR it is the target. -/
def result (a : Arch) (inst : Inst) (pc : Addr) : Option Word :=
  if inst.opcode = Opcode.load then memGetSz a.data (a.address inst) inst.width
  else aluExecute (stationAluOp inst) (a.operand1 inst pc) (a.operand2 inst)

/-- The value for the destination: of a JALR it is the link. -/
def value (a : Arch) (inst : Inst) (pc : Addr) : Word :=
  if inst.opcode = Opcode.jalr then pc + instSize else (a.result inst pc).getD 0

def step (a : Arch) (inst : Inst) (pc : Addr) : Arch :=
  if inst.opcode = Opcode.store then
    { a with data := applyStore a.data (a.address inst, a.get inst.rs2, inst.width) }
  else if hasDest inst then a.set inst.rd (a.value inst pc)
  else a

def next (a : Arch) (inst : Inst) (pc : Addr) : Addr :=
  if inst.opcode = Opcode.jalr then (a.result inst pc).getD 0 &&& ~~~(1 : Word)
  else if inst.opcode = Opcode.jal then pc + inst.immediate
  else if inst.opcode = Opcode.branch ∧ (a.result inst pc).getD 0 ≠ 0 then pc + inst.immediate
  else pc + 4

def effect (a : Arch) (inst : Inst) (pc : Addr) : Retired :=
  if inst.opcode = Opcode.store then .store pc (a.address inst) (a.get inst.rs2) inst.width
  else if inst.opcode = Opcode.branch then .jump pc
  else .write pc inst.rd (a.value inst pc)

omit [WideShift] in
theorem get_set (a : Arch) (x y : RegId) (v : Word) :
    (a.set y v).get x = if x = y ∧ x ≠ 0 then v else a.get x := by
  unfold get set
  by_cases hx : x = 0
  · simp [hx]
  · by_cases hy : y = 0
    · simp [hy, hx]
    · by_cases hxy : x = y
      · simp [hxy, hy]
      · simp [hx, hy, hxy]

theorem get_step (a : Arch) {inst : Inst} (hl : Legal inst) (pc : Addr) (x : RegId) :
    (a.step inst pc).get x =
      if hasDest inst = true ∧ inst.rd = x ∧ x ≠ 0 then a.value inst pc else a.get x := by
  have hstore : inst.opcode = Opcode.store → hasDest inst = false := by
    intro ho
    have hf := hl.format
    simp only [ho, opcodeFormat] at hf
    simp [hasDest, hf, Opcode.store, Opcode.imm, Opcode.load, Opcode.jalr, Opcode.lui,
      Opcode.auipc, Opcode.op, Opcode.jal, Opcode.branch]
  unfold step
  by_cases hs : inst.opcode = Opcode.store
  · rw [if_pos hs, if_neg fun h => by simp [hstore hs] at h]
    rfl
  · rw [if_neg hs]
    by_cases hd : hasDest inst = true
    · rw [if_pos hd, get_set]
      simp only [hd, true_and, eq_comm]
    · rw [if_neg hd, if_neg fun h => hd h.1]

theorem data_step (a : Arch) {inst : Inst} (hs : inst.opcode ≠ Opcode.store) (pc : Addr) :
    (a.step inst pc).data = a.data := by
  rw [step, if_neg hs]
  unfold set
  split_ifs <;> rfl

end Arch

def FakeCpu.arch (cpu : FakeCpu) : Arch := ⟨cpu.regs, cpu.data⟩

/-- What `fakecpu` records of the instruction of a retired entry. -/
def RobPayload.effect (data : RobPayload) : Retired :=
  match data.op with
  | .register | .jalr => .write data.pc data.dest data.value
  | .store => .store data.pc data.addr data.value data.size
  | .branch | .hcf => .jump data.pc

/-- An entry holds what its instruction computes. -/
structure Resolved [WideShift] (a : Arch) (data : RobPayload) : Prop where
  result : data.op ≠ .jalr → data.op ≠ .store →
    a.result data.inst data.pc = some data.value
  target : data.op = .jalr → a.result data.inst data.pc = some data.addr
  store : data.op = .store →
    data.addr = a.address data.inst ∧ data.value = a.get data.inst.rs2

section
variable [WideShift] {a : Arch} {data : RobPayload} (res : Resolved a data) (ok : EntryOk data)
include res ok

theorem Resolved.value_eq (hs : data.op ≠ .store) : a.value data.inst data.pc = data.value := by
  unfold Arch.value
  split_ifs with hj
  · have ho : data.op = .jalr := ok.op.trans (ok.legal.robOp_jalr_iff.2 hj)
    exact (ok.link ho).symm
  · have ho : data.op ≠ .jalr := fun ho => hj (ok.legal.robOp_jalr_iff.1 (ok.op.symm.trans ho))
    rw [res.result ho hs, Option.getD_some]

/-- What an entry does when it retires. -/
theorem Resolved.step_eq : a.step data.inst data.pc =
    ⟨if 0 < data.dest then Function.update a.regs data.dest data.value else a.regs,
      data.store?.elim a.data (applyStore a.data)⟩ := by
  have hst := ok.legal.robOp_store_iff
  rw [← ok.op] at hst
  by_cases hs : data.op = .store
  · have hw : data.inst.width = data.size := by
      have hh : data.inst.op ≠ InstOp.hcf := fun hh =>
        absurd ((hst.1 hs).symm.trans (ok.legal.opcode_of_hcf hh)) (by decide)
      rw [ok.size, ok.legal.width hh (.inr (hst.1 hs))]
    obtain ⟨ha, hv⟩ := res.store hs
    have hd := ok.dest_of_store hs
    rw [Arch.step, if_pos (hst.1 hs), ← ha, ← hv, hw]
    simp [RobPayload.store?, hs, hd]
  · have hn : data.store? = none := by simp [RobPayload.store?, hs]
    rw [Arch.step, if_neg (mt hst.2 hs), res.value_eq ok hs, hn, ok.dest]
    by_cases hd : hasDest data.inst = true
    · rw [if_pos hd, if_pos hd, Arch.set]
      by_cases h0 : data.inst.rd = 0
      · simp [h0]
      · have hpos := regIds_pos ok.legal.rd h0
        simp [h0, hpos]
    · simp [hd]

end

theorem Legal.hasDest_of_ne {inst : Inst} (hl : Legal inst) (hb : inst.opcode ≠ Opcode.branch)
    (hs : inst.opcode ≠ Opcode.store) : hasDest inst = true := by
  rcases hl.format_cases with ⟨hf, -⟩ | ⟨hf, -⟩ | ⟨hf, -⟩ | ⟨hf, -⟩ | ⟨-, h⟩ | ⟨-, h⟩
  · simp [hasDest, hf]
  · simp [hasDest, hf]
  · simp [hasDest, hf]
  · simp [hasDest, hf]
  · exact absurd h hb
  · exact absurd h hs

section
variable [WideShift] {cpu cpu' : FakeCpu} {inst : Inst}

theorem execute_eq (hl : Legal inst) : cpu.execute inst =
    if inst.opcode = Opcode.store then
      (memSetSz cpu.data (cpu.arch.address inst) (cpu.arch.get inst.rs2) inst.width).map fun data =>
        { cpu with
          data := data
          pc := cpu.pc + 4
          executed := cpu.executed ++ [.store cpu.pc (cpu.arch.address inst)
            (cpu.arch.get inst.rs2) inst.width] }
    else (cpu.arch.result inst cpu.pc).map fun (v : Word) =>
      if inst.opcode = Opcode.branch then
        { cpu with
          pc := if v ≠ 0 then inst.immediate + cpu.pc else cpu.pc + 4
          executed := cpu.executed ++ [.jump cpu.pc] }
      else if inst.opcode = Opcode.jalr then
        cpu.writeReg inst (cpu.pc + 4) (v &&& ~~~(1 : Word))
      else cpu.writeReg inst v
        (if inst.opcode = Opcode.jal then inst.immediate + cpu.pc else cpu.pc + 4) := by
  have hadd : ∀ v₁ v₂ : Word, aluExecute AluOp.add v₁ v₂ = some (v₁ + v₂) := fun _ _ => rfl
  rcases hl.format_cases with ⟨hf, h | h | h⟩ | ⟨hf, h | h⟩ | ⟨hf, h⟩ | ⟨hf, h⟩ | ⟨hf, h⟩ | ⟨hf, h⟩
  all_goals
    simp [FakeCpu.execute, h, hf, Arch.result, Arch.address, FakeCpu.arch, Arch.get, FakeCpu.get,
      Opcode.imm, Opcode.load, Opcode.jalr, Opcode.lui, Opcode.auipc, Opcode.op, Opcode.jal,
      Opcode.branch, Opcode.store, stationAluOp, Arch.operand1, Arch.operand2, reads1, reads2,
      const1, const2, hadd, signedAdd, instSize, BitVec.add_comm]

omit [WideShift] in
theorem arch_writeReg {value : Word} {nextPc : Addr} :
    (cpu.writeReg inst value nextPc).arch = cpu.arch.set inst.rd value ∧
      (cpu.writeReg inst value nextPc).hcf = cpu.hcf := by
  unfold FakeCpu.writeReg FakeCpu.set Arch.set FakeCpu.arch
  split_ifs <;> exact ⟨rfl, rfl⟩

/-- A tick of `fakecpu` executes the instruction at its pc. -/
theorem tick_spec (hl : Legal inst) (hi : inst = instDecode (memGetInst cpu.data cpu.pc))
    (hop : inst.op ≠ InstOp.hcf) (ht : cpu.tick = some cpu') :
    cpu'.arch = cpu.arch.step inst cpu.pc ∧ cpu'.hcf = cpu.hcf ∧
      cpu'.executed = cpu.executed ++ [cpu.arch.effect inst cpu.pc] ∧
      cpu'.pc = cpu.arch.next inst cpu.pc := by
  have hexec : cpu.execute inst = some cpu' := by
    rw [FakeCpu.tick, ← hi] at ht
    simp only [hop, ↓reduceIte] at ht
    split_ifs at ht
    exact ht
  rw [execute_eq hl] at hexec
  unfold Arch.step Arch.next Arch.effect
  by_cases hs : inst.opcode = Opcode.store
  · have hj : inst.opcode ≠ Opcode.jalr := by rw [hs]; decide
    have hjal : inst.opcode ≠ Opcode.jal := by rw [hs]; decide
    have hb : inst.opcode ≠ Opcode.branch := by rw [hs]; decide
    rw [if_pos hs] at hexec
    obtain ⟨data, hset, rfl⟩ := Option.map_eq_some_iff.1 hexec
    refine ⟨?_, rfl, ?_, ?_⟩
    · have hdata : applyStore cpu.arch.data
          (cpu.arch.address inst, cpu.arch.get inst.rs2, inst.width) = data := by
        change (memSetSz cpu.data _ _ _).getD _ = data
        rw [hset, Option.getD_some]
      rw [if_pos hs, hdata]
      rfl
    · rw [if_pos hs]
    · rw [if_neg hj, if_neg hjal, if_neg fun h => hb h.1]
  · rw [if_neg hs] at hexec
    obtain ⟨v, hv, rfl⟩ := Option.map_eq_some_iff.1 hexec
    rw [if_neg hs, if_neg hs, hv, Option.getD_some]
    by_cases hbranch : inst.opcode = Opcode.branch
    · have hj : inst.opcode ≠ Opcode.jalr := by rw [hbranch]; decide
      have hjal : inst.opcode ≠ Opcode.jal := by rw [hbranch]; decide
      have hd : hasDest inst = false := by simp [hasDest, hl.format_of_branch hbranch]
      rw [if_pos hbranch, hd, if_neg Bool.false_ne_true]
      refine ⟨rfl, rfl, ?_, ?_⟩
      · rw [if_pos hbranch]
      · simp [hbranch, Opcode.branch, Opcode.jalr, Opcode.jal, BitVec.add_comm]
    · have hd := hl.hasDest_of_ne hbranch hs
      have hb : ¬(inst.opcode = Opcode.branch ∧ v ≠ 0) := fun h => hbranch h.1
      rw [if_neg hbranch, if_pos hd, if_neg hbranch, if_neg hb]
      unfold Arch.value
      rw [hv, Option.getD_some]
      by_cases hjalr : inst.opcode = Opcode.jalr
      · rw [if_pos hjalr, if_pos hjalr, if_pos hjalr]
        exact ⟨arch_writeReg.1, arch_writeReg.2, rfl, rfl⟩
      · rw [if_neg hjalr, if_neg hjalr, if_neg hjalr, BitVec.add_comm inst.immediate]
        exact ⟨arch_writeReg.1, arch_writeReg.2, rfl, rfl⟩

end

namespace Resolved
variable [WideShift] {a : Arch} {data : RobPayload} (res : Resolved a data) (ok : EntryOk data)
include res ok

theorem next_eq (hb : data.op = .branch → Bit data.value) :
    a.next data.inst data.pc = data.next := by
  have hjr := ok.legal.robOp_jalr_iff
  have hbr := ok.legal.robOp_branch_iff
  rw [← ok.op] at hjr hbr
  unfold Arch.next RobPayload.next
  by_cases hjalr : data.inst.opcode = Opcode.jalr
  · rw [if_pos hjalr, if_pos hjalr, res.target (hjr.2 hjalr), Option.getD_some]
  · rw [if_neg hjalr, if_neg hjalr]
    by_cases hbranch : data.inst.opcode = Opcode.branch
    · have ho := hbr.2 hbranch
      have hres := res.result (by rw [ho]; decide) (by rw [ho]; decide)
      rw [hres, Option.getD_some]
      rcases hb ho with h | h <;> simp [hbranch, h]
    · simp [hbranch]

theorem effect_eq (hop : data.op ≠ .hcf) : a.effect data.inst data.pc = data.effect := by
  have hl := ok.legal
  have hne : data.inst.op ≠ InstOp.hcf := fun h => hop (ok.op.trans (hl.robOp_hcf_iff.2 h))
  have hrob := hl.instRobOp_eq
  rw [← ok.op, if_neg hne] at hrob
  unfold Arch.effect RobPayload.effect
  by_cases hs : data.inst.opcode = Opcode.store
  · rw [if_pos hs] at hrob ⊢
    obtain ⟨ha, hv⟩ := res.store hrob
    rw [hrob, ha, hv, ok.size, hl.width hne (.inr hs)]
  · rw [if_neg hs] at hrob ⊢
    by_cases hbranch : data.inst.opcode = Opcode.branch
    · rw [if_pos hbranch] at hrob ⊢
      rw [hrob]
    · have hdest : data.dest = data.inst.rd := by
        rw [ok.dest, if_pos (hl.hasDest_of_ne hbranch hs)]
      have hvalue : data.op ≠ .store → a.value data.inst data.pc = data.value := res.value_eq ok
      rw [if_neg hbranch] at hrob ⊢
      split_ifs at hrob <;> rw [hrob] at hvalue ⊢ <;> rw [hvalue (by decide), hdest]

end Resolved

/-- `fakecpu` does what an entry with right results does. -/
theorem Resolved.tick [WideShift] {cpu cpu' : FakeCpu} {data : RobPayload}
    (res : Resolved cpu.arch data) (ok : EntryOk data)
    (hpc : data.pc = cpu.pc) (hi : data.inst = instDecode (memGetInst cpu.data cpu.pc))
    (hop : data.op ≠ .hcf) (hb : data.op = .branch → Bit data.value)
    (ht : cpu.tick = some cpu') :
    cpu'.arch = cpu.arch.step data.inst data.pc ∧ cpu'.hcf = cpu.hcf ∧
      cpu'.executed = cpu.executed ++ [data.effect] ∧ cpu'.pc = data.next := by
  have hne : data.inst.op ≠ InstOp.hcf := fun h =>
    hop (ok.op.trans (ok.legal.robOp_hcf_iff.2 h))
  obtain ⟨h₁, h₂, h₃, h₄⟩ := tick_spec ok.legal hi hne ht
  rw [← hpc] at h₁ h₃ h₄
  exact ⟨h₁, h₂, by rw [h₃, res.effect_eq ok hop], by rw [h₄, res.next_eq ok hb]⟩

end TomasuloCpu
