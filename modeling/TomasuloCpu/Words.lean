import TomasuloCpu.Encode
import TomasuloCpu.Executable
import TomasuloCpu.Precise

set_option autoImplicit false

/-!
# What a word is executed as

Every word that `fakecpu` executes, immediate shifts with another `funct7` apart, is
executed as an instruction of RV32I. The code does not look at `funct3` of a JALR, and
of `funct7` it looks at one bit.
-/
namespace TomasuloCpu

def loadOps : List ImmOp := [.lb, .lh, .lw, .lbu, .lhu]

def immOps : List ImmOp := [.addi, .slti, .sltiu, .xori, .ori, .andi]

def shiftOps : List ShiftOp := [.slli, .srli, .srai]

def storeOps : List StoreOp := [.sb, .sh, .sw]

def regOps : List RegOp := [.add, .sub, .sll, .slt, .sltu, .xor, .srl, .sra, .or, .and]

def branchOps : List BranchOp := [.beq, .bne, .blt, .bge, .bltu, .bgeu]

section
variable (funct7 : BitVec 7) (rs2 rs1 : BitVec 5) (funct3 : BitVec 3) (rd : BitVec 5)
    (opcode : BitVec 7)

def branchOffset : BitVec 12 :=
  funct7.extractLsb' 6 1 ++ rd.extractLsb' 0 1 ++ funct7.extractLsb' 0 6 ++ rd.extractLsb' 1 4

def jalOffset : BitVec 20 :=
  funct7.extractLsb' 6 1 ++ rs1 ++ funct3 ++ rs2.extractLsb' 0 1 ++ funct7.extractLsb' 0 6 ++
    rs2.extractLsb' 1 4

def Rv32i.ofFields : Option Rv32i :=
  if opcode = 0b0110111 then some (.upper .lui rd (funct7 ++ rs2 ++ rs1 ++ funct3))
  else if opcode = 0b0010111 then some (.upper .auipc rd (funct7 ++ rs2 ++ rs1 ++ funct3))
  else if opcode = 0b1101111 then some (.jal rd (jalOffset funct7 rs2 rs1 funct3))
  else if opcode = 0b1100111 then some (.imm .jalr rd rs1 (funct7 ++ rs2))
  else if opcode = 0b1100011 then
    (branchOps.find? (·.funct3 = funct3)).map fun op => .branch op rs1 rs2 (branchOffset funct7 rd)
  else if opcode = 0b0000011 then
    (loadOps.find? (·.funct3 = funct3)).map fun op => .imm op rd rs1 (funct7 ++ rs2)
  else if opcode = 0b0100011 then
    (storeOps.find? (·.funct3 = funct3)).map fun op => .store op rs1 rs2 (funct7 ++ rd)
  else if opcode = 0b0010011 then
    ((immOps.find? (·.funct3 = funct3)).map fun op => .imm op rd rs1 (funct7 ++ rs2)).or
      ((shiftOps.find? fun op => op.funct3 = funct3 ∧ op.funct7 = funct7).map fun op =>
        .shift op rd rs1 rs2)
  else if opcode = 0b0110011 then
    (regOps.find? fun op => op.funct3 = funct3 ∧ op.funct7.getLsbD 5 = funct7.getLsbD 5).map
      fun op => .reg op rd rs1 rs2
  else none

end

/-- The instruction of RV32I as which a word is executed. -/
def Rv32i.ofWord (w : Word) : Option Rv32i :=
  ofFields (w.extractLsb' 25 7) (w.extractLsb' 20 5) (w.extractLsb' 15 5) (w.extractLsb' 12 3)
    (w.extractLsb' 7 5) (w.extractLsb' 0 7)

/-- An immediate shift has a `funct7` of RV32I. -/
def ShiftCoded (w : Word) : Prop :=
  w.extractLsb' 0 7 = 0b0010011#7 →
    (w.extractLsb' 12 3 = 0b001#3 → w.extractLsb' 25 7 = 0#7) ∧
    (w.extractLsb' 12 3 = 0b101#3 → w.extractLsb' 25 7 = 0#7 ∨ w.extractLsb' 25 7 = 0b0100000#7)

instance (w : Word) : Decidable (ShiftCoded w) :=
  inferInstanceAs (Decidable (_ → _))

theorem fieldsWord_fields (w : Word) :
    fieldsWord (w.extractLsb' 25 7) (w.extractLsb' 20 5) (w.extractLsb' 15 5) (w.extractLsb' 12 3)
      (w.extractLsb' 7 5) (w.extractLsb' 0 7) = w := by
  apply BitVec.eq_of_getLsbD_eq
  intro i hi
  rw [getLsbD_fieldsWord]
  grind

theorem extractLsb'_append (x : BitVec 7) (y : BitVec 5) :
    (x ++ y).extractLsb' 5 7 = x ∧ (x ++ y).extractLsb' 0 5 = y := by
  constructor
  · apply BitVec.eq_of_getLsbD_eq
    intro i hi
    rw [BitVec.getLsbD_extractLsb', BitVec.getLsbD_append]
    grind
  · apply BitVec.eq_of_getLsbD_eq
    intro i hi
    rw [BitVec.getLsbD_extractLsb', BitVec.getLsbD_append]
    grind

section
variable (funct7 : BitVec 7) (rs2 rs1 : BitVec 5) (funct3 : BitVec 3) (rd : BitVec 5)
    (opcode : BitVec 7)

theorem encode_imm (op : ImmOp) : (Rv32i.imm op rd rs1 (funct7 ++ rs2)).encode =
    fieldsWord funct7 rs2 rs1 op.funct3 rd op.opcode := by
  rw [Rv32i.encode, (extractLsb'_append funct7 rs2).1, (extractLsb'_append funct7 rs2).2]

theorem encode_store (op : StoreOp) : (Rv32i.store op rs1 rs2 (funct7 ++ rd)).encode =
    fieldsWord funct7 rs2 rs1 op.funct3 rd 0b0100011 := by
  rw [Rv32i.encode, (extractLsb'_append funct7 rd).1, (extractLsb'_append funct7 rd).2]

theorem encode_branch (op : BranchOp) :
    (Rv32i.branch op rs1 rs2 (branchOffset funct7 rd)).encode =
      fieldsWord funct7 rs2 rs1 op.funct3 rd 0b1100011 := by
  rw [Rv32i.encode, branchOffset]
  apply BitVec.eq_of_getLsbD_eq
  intro i hi
  simp only [getLsbD_fieldsWord, BitVec.getLsbD_append, BitVec.getLsbD_extractLsb']
  interval_cases i <;> simp

theorem encode_upper (op : UpperOp) :
    (Rv32i.upper op rd (funct7 ++ rs2 ++ rs1 ++ funct3)).encode =
      fieldsWord funct7 rs2 rs1 funct3 rd op.opcode := by
  rw [Rv32i.encode]
  apply BitVec.eq_of_getLsbD_eq
  intro i hi
  simp only [getLsbD_fieldsWord, BitVec.getLsbD_append, BitVec.getLsbD_extractLsb']
  interval_cases i <;> simp

theorem encode_jal : (Rv32i.jal rd (jalOffset funct7 rs2 rs1 funct3)).encode =
    fieldsWord funct7 rs2 rs1 funct3 rd 0b1101111 := by
  rw [Rv32i.encode, jalOffset]
  apply BitVec.eq_of_getLsbD_eq
  intro i hi
  simp only [getLsbD_fieldsWord, BitVec.getLsbD_append, BitVec.getLsbD_extractLsb']
  interval_cases i <;> simp

theorem ofWord_fieldsWord : Rv32i.ofWord (fieldsWord funct7 rs2 rs1 funct3 rd opcode) =
    Rv32i.ofFields funct7 rs2 rs1 funct3 rd opcode := by
  rw [Rv32i.ofWord]
  congr 1
  all_goals
    apply BitVec.eq_of_getLsbD_eq
    intro i hi
    rw [BitVec.getLsbD_extractLsb', getLsbD_fieldsWord]
    grind

end

theorem branchOffset_encode (offset : BitVec 12) :
    branchOffset (offset.extractLsb' 11 1 ++ offset.extractLsb' 4 6)
      (offset.extractLsb' 0 4 ++ offset.extractLsb' 10 1) = offset := by
  rw [branchOffset]
  apply BitVec.eq_of_getLsbD_eq
  intro i hi
  simp only [BitVec.getLsbD_append, BitVec.getLsbD_extractLsb']
  interval_cases i <;> simp

theorem jalOffset_encode (offset : BitVec 20) :
    jalOffset (offset.extractLsb' 19 1 ++ offset.extractLsb' 4 6)
      (offset.extractLsb' 0 4 ++ offset.extractLsb' 10 1) (offset.extractLsb' 14 5)
      (offset.extractLsb' 11 3) = offset := by
  rw [jalOffset]
  apply BitVec.eq_of_getLsbD_eq
  intro i hi
  simp only [BitVec.getLsbD_append, BitVec.getLsbD_extractLsb']
  interval_cases i <;> simp

theorem upperImm_encode (imm20 : BitVec 20) :
    imm20.extractLsb' 13 7 ++ imm20.extractLsb' 8 5 ++ imm20.extractLsb' 3 5 ++
      imm20.extractLsb' 0 3 = imm20 := by
  apply BitVec.eq_of_getLsbD_eq
  intro i hi
  simp only [BitVec.getLsbD_append, BitVec.getLsbD_extractLsb']
  grind

theorem imm_encode (imm12 : BitVec 12) :
    imm12.extractLsb' 5 7 ++ imm12.extractLsb' 0 5 = imm12 :=
  BitVec.extractLsb'_append_extractLsb'

theorem ofWord_encode (i : Rv32i) : Rv32i.ofWord i.encode = some i := by
  unfold Rv32i.encode
  cases i with
  | imm op rd rs1 imm12 =>
    refine (ofWord_fieldsWord ..).trans ?_
    have h := imm_encode imm12
    cases op <;> exact congrArg (fun x => some (Rv32i.imm _ rd rs1 x)) h
  | shift op rd rs1 shamt =>
    refine (ofWord_fieldsWord ..).trans ?_
    cases op <;> rfl
  | store op rs1 rs2 imm12 =>
    refine (ofWord_fieldsWord ..).trans ?_
    have h := imm_encode imm12
    cases op <;> exact congrArg (fun x => some (Rv32i.store _ rs1 rs2 x)) h
  | reg op rd rs1 rs2 =>
    refine (ofWord_fieldsWord ..).trans ?_
    cases op <;> rfl
  | branch op rs1 rs2 offset =>
    refine (ofWord_fieldsWord ..).trans ?_
    have h := branchOffset_encode offset
    cases op <;> exact congrArg (fun x => some (Rv32i.branch _ rs1 rs2 x)) h
  | upper op rd imm20 =>
    refine (ofWord_fieldsWord ..).trans ?_
    have h := upperImm_encode imm20
    cases op <;> exact congrArg (fun x => some (Rv32i.upper _ rd x)) h
  | jal rd offset =>
    refine (ofWord_fieldsWord ..).trans ?_
    exact congrArg (fun x => some (Rv32i.jal rd x)) (jalOffset_encode offset)

namespace FakeCpu
variable [WideShift] {cpu : FakeCpu} {inst inst' : Inst}

omit [WideShift] in
theorem writeReg_congr (h : inst.rd = inst'.rd) (value : Word) (nextPc : Addr) :
    cpu.writeReg inst value nextPc = cpu.writeReg inst' value nextPc := by
  rw [writeReg, writeReg, h]

theorem execute_load_eq_none (ho : inst.opcode = Opcode.load) (h : ¬KnownSize inst.width) :
    cpu.execute inst = none := by
  rw [execute, if_pos ho, Option.map_eq_none_iff, ← Option.not_isSome_iff_eq_none,
    memGetSz_isSome_iff]
  exact h

theorem execute_store_eq_none (ho : inst.opcode = Opcode.store) (h : ¬Storable inst.width) :
    cpu.execute inst = none := by
  rw [execute, ho]
  refine Option.map_eq_none_iff.2 (Option.not_isSome_iff_eq_none.1 ?_)
  rw [memSetSz_isSome_iff]
  exact h

theorem execute_alu_eq_none (ho : inst.opcode = Opcode.op ∨ inst.opcode = Opcode.branch)
    (h : instAluOp inst ∉ aluOps) : cpu.execute inst = none := by
  have hres : aluExecute (instAluOp inst) (cpu.get inst.rs1) (cpu.get inst.rs2) = none := by
    rw [← Option.not_isSome_iff_eq_none, aluExecute_isSome_iff]
    exact h
  rcases ho with ho | ho
  · rw [execute, ho, hres]
    rfl
  · rw [execute, ho, hres]
    rfl

theorem execute_op (ho : inst.opcode = Opcode.op) : cpu.execute inst =
    (aluExecute (instAluOp inst) (cpu.get inst.rs1) (cpu.get inst.rs2)).map fun v =>
      cpu.writeReg inst v (cpu.pc + 4) := by
  rw [execute, ho]
  rfl

theorem execute_jalr (ho : inst.opcode = Opcode.jalr) : cpu.execute inst =
    some (cpu.writeReg inst (cpu.pc + 4)
      ((inst.immediate + cpu.get inst.rs1) &&& ~~~(1 : Word))) := by
  rw [execute, ho]
  rfl

theorem execute_unknown (ho : inst.opcode ∉ opcodes) : cpu.execute inst = none := by
  simp only [opcodes, List.mem_cons, List.not_mem_nil, or_false, not_or] at ho
  simp only [execute, ho, ↓reduceIte]

end FakeCpu

theorem not_knownSize_of_find {funct3 : BitVec 3}
    (h : loadOps.find? (·.funct3 = funct3) = none) : ¬KnownSize (funct3.setWidth 32) := by
  have htable : ∀ f : BitVec 3, loadOps.find? (·.funct3 = f) = none →
      f.setWidth 32 ∈ [3#32, 6#32, 7#32] ∧ (f.setWidth 32).toNat < 8 := by decide
  obtain ⟨hmem, hlt⟩ := htable funct3 h
  rw [knownSize_iff hlt]
  simp only [List.mem_cons, List.not_mem_nil, or_false] at hmem
  tauto

theorem not_storable_of_find : ∀ {funct3 : BitVec 3},
    storeOps.find? (·.funct3 = funct3) = none → ¬Storable (funct3.setWidth 32) := by decide

theorem not_mem_of_find_branch : ∀ {funct3 : BitVec 3},
    branchOps.find? (·.funct3 = funct3) = none →
      (funct3.setWidth 32 ||| 16 : AluOp) ∉ aluOps := by decide

theorem not_mem_of_find_reg : ∀ {funct3 : BitVec 3} {b : Bool},
    regOps.find? (fun op => op.funct3 = funct3 ∧ op.funct7.getLsbD 5 = b) = none →
      (funct3.setWidth 32 ||| boolWord b <<< 3 : AluOp) ∉ aluOps := by decide

theorem funct3_of_find_imm : ∀ {funct3 : BitVec 3}, immOps.find? (·.funct3 = funct3) = none →
    funct3 = 0b001 ∨ funct3 = 0b101 := by decide

section
variable {funct7 : BitVec 7} {rs2 rs1 : BitVec 5} {funct3 : BitVec 3} {rd : BitVec 5}
    {opcode : BitVec 7}

theorem getLsbD_funct7 : (fieldsWord funct7 rs2 rs1 funct3 rd opcode).getLsbD 30 =
    funct7.getLsbD 5 := by
  rw [getLsbD_fieldsWord]
  rfl

variable [WideShift] {cpu : FakeCpu}

/-- Of the `funct7` of an operation on registers only bit 5 counts. -/
theorem execute_congr_funct7 {funct7' : BitVec 7} (h : funct7.getLsbD 5 = funct7'.getLsbD 5) :
    cpu.execute (instDecode (fieldsWord funct7 rs2 rs1 funct3 rd 0b0110011)) =
      cpu.execute (instDecode (fieldsWord funct7' rs2 rs1 funct3 rd 0b0110011)) := by
  have ho (f : BitVec 7) : instGet (fieldsWord f rs2 rs1 funct3 rd 0b0110011) opcodeMask 0 =
      Opcode.op := instGet_opcode ..
  have hregs := instDecode_regs funct7 rs2 rs1 funct3 rd 0b0110011
  have hregs' := instDecode_regs funct7' rs2 rs1 funct3 rd 0b0110011
  rw [FakeCpu.execute_op (ho funct7), FakeCpu.execute_op (ho funct7'), instAluOp_reg (ho funct7),
    instAluOp_reg (ho funct7'), instGet_funct3, instGet_funct3, getLsbD_funct7, getLsbD_funct7, h,
    hregs.2.1, hregs.2.2, hregs'.2.1, hregs'.2.2]
  congr 1
  funext v
  exact FakeCpu.writeReg_congr (hregs.1.trans hregs'.1.symm) v _

/-- The `funct3` of a JALR does not count. -/
theorem execute_congr_funct3 (funct3' : BitVec 3) :
    cpu.execute (instDecode (fieldsWord funct7 rs2 rs1 funct3 rd 0b1100111)) =
      cpu.execute (instDecode (fieldsWord funct7 rs2 rs1 funct3' rd 0b1100111)) := by
  have ho (f : BitVec 3) : instGet (fieldsWord funct7 rs2 rs1 f rd 0b1100111) opcodeMask 0 =
      Opcode.jalr := instGet_opcode ..
  have himm (f : BitVec 3) : (instDecode (fieldsWord funct7 rs2 rs1 f rd 0b1100111)).immediate =
      signExtend ((funct7 ++ rs2).setWidth 32) 12 := by
    have hop : ∀ g : BitVec 3, Opcode.jalr ||| g.setWidth 32 <<< 7 ≠ InstOp.slli ∧
        Opcode.jalr ||| g.setWidth 32 <<< 7 ≠ InstOp.sltiu := by decide
    simp only [instDecode, instSelect, instGet_opcode, instGet_funct3, instGet_imm]
    rw [if_pos (.inr (.inr rfl))]
    exact (if_neg fun h => (hop f).1 h.1).trans (if_neg (hop f).2)
  have hregs := instDecode_regs funct7 rs2 rs1 funct3 rd 0b1100111
  have hregs' := instDecode_regs funct7 rs2 rs1 funct3' rd 0b1100111
  rw [FakeCpu.execute_jalr (ho funct3), FakeCpu.execute_jalr (ho funct3'), himm, himm, hregs.2.1,
    hregs'.2.1]
  exact congrArg some (FakeCpu.writeReg_congr (hregs.1.trans hregs'.1.symm) _ _)

omit [WideShift] in
theorem encode_of_ofFields {i : Rv32i}
    (h : Rv32i.ofFields funct7 rs2 rs1 funct3 rd opcode = some i) :
    ∃ f7 f3, i.encode = fieldsWord f7 rs2 rs1 f3 rd opcode ∧
      (f7 = funct7 ∨ opcode = 0b0110011 ∧ f7.getLsbD 5 = funct7.getLsbD 5) ∧
      (f3 = funct3 ∨ opcode = 0b1100111) := by
  unfold Rv32i.ofFields at h
  split_ifs at h with ho ho ho ho ho ho ho ho ho
  case pos => -- LUI
    cases h
    exact ⟨funct7, funct3, ho ▸ encode_upper .., .inl rfl, .inl rfl⟩
  case pos => -- AUIPC
    cases h
    exact ⟨funct7, funct3, ho ▸ encode_upper .., .inl rfl, .inl rfl⟩
  case pos => -- JAL
    cases h
    exact ⟨funct7, funct3, ho ▸ encode_jal .., .inl rfl, .inl rfl⟩
  case pos => -- JALR
    cases h
    exact ⟨funct7, 0b000, ho ▸ encode_imm .., .inl rfl, .inr ho⟩
  case pos => -- branches
    obtain ⟨op, hfind, rfl⟩ := Option.map_eq_some_iff.1 h
    have hop : op.funct3 = funct3 := by simpa using List.find?_some hfind
    exact ⟨funct7, _, ho ▸ encode_branch .., .inl rfl, .inl hop⟩
  case pos => -- loads
    obtain ⟨op, hfind, rfl⟩ := Option.map_eq_some_iff.1 h
    have hop : op.funct3 = funct3 := by simpa using List.find?_some hfind
    have hload : ∀ op ∈ loadOps, op.opcode = 0b0000011 := by decide
    refine ⟨funct7, _, ?_, .inl rfl, .inl hop⟩
    rw [encode_imm, hload op (List.mem_of_find?_eq_some hfind), ho]
  case pos => -- stores
    obtain ⟨op, hfind, rfl⟩ := Option.map_eq_some_iff.1 h
    have hop : op.funct3 = funct3 := by simpa using List.find?_some hfind
    exact ⟨funct7, _, ho ▸ encode_store .., .inl rfl, .inl hop⟩
  case pos => -- operations with an immediate
    rcases Option.or_eq_some_iff.1 h with h | ⟨-, h⟩
    · obtain ⟨op, hfind, rfl⟩ := Option.map_eq_some_iff.1 h
      have hop : op.funct3 = funct3 := by simpa using List.find?_some hfind
      have himm : ∀ op ∈ immOps, op.opcode = 0b0010011 := by decide
      refine ⟨funct7, _, ?_, .inl rfl, .inl hop⟩
      rw [encode_imm, himm op (List.mem_of_find?_eq_some hfind), ho]
    · obtain ⟨op, hfind, rfl⟩ := Option.map_eq_some_iff.1 h
      have hop : op.funct3 = funct3 ∧ op.funct7 = funct7 := by simpa using List.find?_some hfind
      exact ⟨_, _, by rw [Rv32i.encode, ho], .inl hop.2, .inl hop.1⟩
  case pos => -- operations on registers
    obtain ⟨op, hfind, rfl⟩ := Option.map_eq_some_iff.1 h
    have hop : op.funct3 = funct3 ∧ op.funct7.getLsbD 5 = funct7.getLsbD 5 := by
      simpa using List.find?_some hfind
    exact ⟨_, _, by rw [Rv32i.encode, ho], .inr ⟨ho, hop.2⟩, .inl hop.1⟩

theorem execute_of_ofFields_eq_none
    (hs : opcode = 0b0010011 → (funct3 = 0b001 → funct7 = 0) ∧
      (funct3 = 0b101 → funct7 = 0 ∨ funct7 = 0b0100000))
    (h : Rv32i.ofFields funct7 rs2 rs1 funct3 rd opcode = none) :
    cpu.execute (instDecode (fieldsWord funct7 rs2 rs1 funct3 rd opcode)) = none := by
  have hopc : (instDecode (fieldsWord funct7 rs2 rs1 funct3 rd opcode)).opcode =
      opcode.setWidth 32 := instGet_opcode ..
  have hwidth : (instDecode (fieldsWord funct7 rs2 rs1 funct3 rd opcode)).width =
      funct3.setWidth 32 := instGet_funct3 ..
  unfold Rv32i.ofFields at h
  split_ifs at h with ho ho ho ho ho ho ho ho ho
  case pos => -- branches
    subst ho
    refine FakeCpu.execute_alu_eq_none (.inr hopc) ?_
    rw [instAluOp_branch (instGet_opcode ..), instGet_funct3]
    exact not_mem_of_find_branch (Option.map_eq_none_iff.1 h)
  case pos => -- loads
    subst ho
    refine FakeCpu.execute_load_eq_none hopc ?_
    rw [hwidth]
    exact not_knownSize_of_find (Option.map_eq_none_iff.1 h)
  case pos => -- stores
    subst ho
    refine FakeCpu.execute_store_eq_none hopc ?_
    rw [hwidth]
    exact not_storable_of_find (Option.map_eq_none_iff.1 h)
  case pos => -- an immediate shift with a `funct7` of RV32I is in the table
    obtain ⟨himm, hshift⟩ := Option.or_eq_none_iff.1 h
    rcases funct3_of_find_imm (Option.map_eq_none_iff.1 himm) with rfl | rfl
    · obtain rfl := (hs ho).1 rfl
      cases hshift
    · rcases (hs ho).2 rfl with rfl | rfl
      · cases hshift
      · cases hshift
  case pos => -- operations on registers
    subst ho
    refine FakeCpu.execute_alu_eq_none (.inl hopc) ?_
    rw [instAluOp_reg (instGet_opcode ..), instGet_funct3, getLsbD_funct7]
    exact not_mem_of_find_reg (Option.map_eq_none_iff.1 h)
  case neg =>
    have hknown : ∀ o : BitVec 7, o.setWidth 32 ∈ opcodes → o ∈ [0b0110111#7, 0b0010111#7,
        0b1101111#7, 0b1100111#7, 0b1100011#7, 0b0000011#7, 0b0100011#7, 0b0010011#7,
        0b0110011#7] := by decide
    apply FakeCpu.execute_unknown
    intro hmem
    rw [hopc] at hmem
    have := hknown opcode hmem
    simp_all

end

section
variable {w : Word}

/-- No other word is executed as the instruction that HCF encodes. -/
theorem encode_ne_magic {i : Rv32i} (h : Rv32i.ofWord w = some i) (hw : w ≠ instMagicHcf) :
    i.encode ≠ instMagicHcf := by
  obtain ⟨f7, f3, he, h7, h3⟩ := encode_of_ofFields h
  intro hm
  have hopc : instGet instMagicHcf opcodeMask 0 = (w.extractLsb' 0 7).setWidth 32 := by
    rw [← hm, he, instGet_opcode]
  have h7 : f7 = w.extractLsb' 25 7 := by
    refine h7.resolve_right fun h => ?_
    rw [h.1] at hopc
    exact absurd hopc (by decide)
  have h3 : f3 = w.extractLsb' 12 3 := by
    refine h3.resolve_right fun h => ?_
    rw [h] at hopc
    exact absurd hopc (by decide)
  rw [h7, h3, fieldsWord_fields] at he
  exact hw (he.symm.trans hm)

variable [WideShift]

/-- Every word is executed as an instruction of RV32I or not at all. -/
theorem execute_word (hs : ShiftCoded w) (cpu : FakeCpu) :
    cpu.execute (instDecode w) =
      (Rv32i.ofWord w).bind fun i => cpu.execute (instDecode i.encode) := by
  have hfields := fieldsWord_fields w
  cases h : Rv32i.ofWord w with
  | none =>
    have hnone : cpu.execute (instDecode (fieldsWord _ _ _ _ _ _)) = none :=
      execute_of_ofFields_eq_none hs h
    rw [hfields] at hnone
    exact hnone
  | some i =>
    obtain ⟨f7, f3, he, h7, h3⟩ := encode_of_ofFields h
    rw [Option.bind_some, he]
    rcases h7 with rfl | ⟨ho, h7⟩
    · rcases h3 with rfl | ho
      · rw [hfields]
      · rw [ho] at hfields ⊢
        rw [execute_congr_funct3 (w.extractLsb' 12 3), hfields]
    · rw [ho] at hfields ⊢
      rcases h3 with rfl | ho'
      · rw [execute_congr_funct7 h7, hfields]
      · exact absurd (ho.symm.trans ho') (by decide)

omit [WideShift] in
/-- A JALR with a `funct3` that RV32I does not have. -/
theorem execute_word_jalr : ShiftCoded 0x008090e7 ∧
    @FakeCpu.execute .masked (fakeCpuCreate fun _ => 0) (instDecode 0x008090e7) =
      (Rv32i.ofWord 0x008090e7).bind fun i =>
        @FakeCpu.execute .masked (fakeCpuCreate fun _ => 0) (instDecode i.encode) :=
  ⟨by decide, @execute_word 0x008090e7 .masked (by decide) (fakeCpuCreate fun _ => 0)⟩

end

end TomasuloCpu
