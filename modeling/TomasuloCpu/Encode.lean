import Mathlib.Tactic.IntervalCases
import TomasuloCpu.Decode

set_option autoImplicit false

/-!
# Encoding RV32I

The instructions that `enum inst_op_t` names, with their operands, their
encoding in the instruction formats of RV32I and what a decoder has to make of
it. A jump offset is given in units of two bytes.
-/
namespace TomasuloCpu

inductive ImmOp where
  | lb | lh | lw | lbu | lhu | addi | slti | sltiu | xori | ori | andi | jalr
  deriving DecidableEq, Repr

inductive ShiftOp where
  | slli | srli | srai
  deriving DecidableEq, Repr

inductive StoreOp where
  | sb | sh | sw
  deriving DecidableEq, Repr

inductive RegOp where
  | add | sub | sll | slt | sltu | xor | srl | sra | or | and
  deriving DecidableEq, Repr

inductive BranchOp where
  | beq | bne | blt | bge | bltu | bgeu
  deriving DecidableEq, Repr

inductive UpperOp where
  | lui | auipc
  deriving DecidableEq, Repr

inductive Rv32i where
  | imm (op : ImmOp) (rd rs1 : BitVec 5) (imm12 : BitVec 12)
  | shift (op : ShiftOp) (rd rs1 shamt : BitVec 5)
  | store (op : StoreOp) (rs1 rs2 : BitVec 5) (imm12 : BitVec 12)
  | reg (op : RegOp) (rd rs1 rs2 : BitVec 5)
  | branch (op : BranchOp) (rs1 rs2 : BitVec 5) (offset : BitVec 12)
  | upper (op : UpperOp) (rd : BitVec 5) (imm20 : BitVec 20)
  | jal (rd : BitVec 5) (offset : BitVec 20)
  deriving DecidableEq, Repr

def ImmOp.const : ImmOp → InstOp
  | .lb => 0b0000000011
  | .lh => 0b0010000011
  | .lw => 0b0100000011
  | .lbu => 0b1000000011
  | .lhu => 0b1010000011
  | .addi => 0b00000010011
  | .slti => 0b00100010011
  | .sltiu => InstOp.sltiu
  | .xori => 0b01000010011
  | .ori => 0b01100010011
  | .andi => 0b01110010011
  | .jalr => 0b1100111

def ShiftOp.const : ShiftOp → InstOp
  | .slli => InstOp.slli
  | .srli => InstOp.srli
  | .srai => 0b11010010011

def StoreOp.const : StoreOp → InstOp
  | .sb => 0b0000100011
  | .sh => 0b0010100011
  | .sw => 0b0100100011

def RegOp.const : RegOp → InstOp
  | .add => 0b00000110011
  | .sub => 0b10000110011
  | .sll => 0b00010110011
  | .slt => 0b00100110011
  | .sltu => 0b00110110011
  | .xor => 0b01000110011
  | .srl => 0b01010110011
  | .sra => 0b11010110011
  | .or => 0b01100110011
  | .and => 0b01110110011

def BranchOp.const : BranchOp → InstOp
  | .beq => 0b0001100011
  | .bne => 0b0011100011
  | .blt => 0b1001100011
  | .bge => 0b1011100011
  | .bltu => 0b1101100011
  | .bgeu => 0b1111100011

def UpperOp.const : UpperOp → InstOp
  | .lui => 0b0110111
  | .auipc => 0b0010111

def fieldsWord (funct7 : BitVec 7) (rs2 rs1 : BitVec 5) (funct3 : BitVec 3) (rd : BitVec 5)
    (opcode : BitVec 7) : Word :=
  funct7 ++ rs2 ++ rs1 ++ funct3 ++ rd ++ opcode

def ImmOp.funct3 : ImmOp → BitVec 3
  | .lb | .addi | .jalr => 0b000
  | .lh => 0b001
  | .lw | .slti => 0b010
  | .sltiu => 0b011
  | .lbu | .xori => 0b100
  | .lhu => 0b101
  | .ori => 0b110
  | .andi => 0b111

def ImmOp.opcode : ImmOp → BitVec 7
  | .lb | .lh | .lw | .lbu | .lhu => 0b0000011
  | .addi | .slti | .sltiu | .xori | .ori | .andi => 0b0010011
  | .jalr => 0b1100111

def ShiftOp.funct7 : ShiftOp → BitVec 7
  | .slli | .srli => 0b0000000
  | .srai => 0b0100000

def ShiftOp.funct3 : ShiftOp → BitVec 3
  | .slli => 0b001
  | .srli | .srai => 0b101

def StoreOp.funct3 : StoreOp → BitVec 3
  | .sb => 0b000
  | .sh => 0b001
  | .sw => 0b010

def RegOp.funct7 : RegOp → BitVec 7
  | .sub | .sra => 0b0100000
  | _ => 0b0000000

def RegOp.funct3 : RegOp → BitVec 3
  | .add | .sub => 0b000
  | .sll => 0b001
  | .slt => 0b010
  | .sltu => 0b011
  | .xor => 0b100
  | .srl | .sra => 0b101
  | .or => 0b110
  | .and => 0b111

def BranchOp.funct3 : BranchOp → BitVec 3
  | .beq => 0b000
  | .bne => 0b001
  | .blt => 0b100
  | .bge => 0b101
  | .bltu => 0b110
  | .bgeu => 0b111

def UpperOp.opcode : UpperOp → BitVec 7
  | .lui => 0b0110111
  | .auipc => 0b0010111

namespace Rv32i

def encode : Rv32i → Word
  | .imm op rd rs1 imm12 =>
    fieldsWord (imm12.extractLsb' 5 7) (imm12.extractLsb' 0 5) rs1 op.funct3 rd op.opcode
  | .shift op rd rs1 shamt => fieldsWord op.funct7 shamt rs1 op.funct3 rd 0b0010011
  | .store op rs1 rs2 imm12 =>
    fieldsWord (imm12.extractLsb' 5 7) rs2 rs1 op.funct3 (imm12.extractLsb' 0 5) 0b0100011
  | .reg op rd rs1 rs2 => fieldsWord op.funct7 rs2 rs1 op.funct3 rd 0b0110011
  | .branch op rs1 rs2 offset =>
    fieldsWord (offset.extractLsb' 11 1 ++ offset.extractLsb' 4 6) rs2 rs1 op.funct3
      (offset.extractLsb' 0 4 ++ offset.extractLsb' 10 1) 0b1100011
  | .upper op rd imm20 =>
    fieldsWord (imm20.extractLsb' 13 7) (imm20.extractLsb' 8 5) (imm20.extractLsb' 3 5)
      (imm20.extractLsb' 0 3) rd op.opcode
  | .jal rd offset =>
    fieldsWord (offset.extractLsb' 19 1 ++ offset.extractLsb' 4 6)
      (offset.extractLsb' 0 4 ++ offset.extractLsb' 10 1) (offset.extractLsb' 14 5)
      (offset.extractLsb' 11 3) rd 0b1101111

def const : Rv32i → InstOp
  | .imm op _ _ _ => op.const
  | .shift op _ _ _ => op.const
  | .store op _ _ _ => op.const
  | .reg op _ _ _ => op.const
  | .branch op _ _ _ => op.const
  | .upper op _ _ => op.const
  | .jal _ _ => InstOp.jal

def format : Rv32i → InstFormat
  | .imm _ _ _ _ | .shift _ _ _ _ => .i
  | .store _ _ _ _ => .s
  | .reg _ _ _ _ => .r
  | .branch _ _ _ _ => .b
  | .upper _ _ _ => .u
  | .jal _ _ => .j

def Operands (inst : Inst) : Rv32i → Prop
  | .imm _ rd rs1 imm12 =>
    inst.rd = rd.toNat ∧ inst.rs1 = rs1.toNat ∧ inst.immediate = imm12.signExtend 32
  | .shift _ rd rs1 shamt =>
    inst.rd = rd.toNat ∧ inst.rs1 = rs1.toNat ∧ inst.immediate = shamt.setWidth 32
  | .store _ rs1 rs2 imm12 =>
    inst.rs1 = rs1.toNat ∧ inst.rs2 = rs2.toNat ∧ inst.immediate = imm12.signExtend 32
  | .reg _ rd rs1 rs2 => inst.rd = rd.toNat ∧ inst.rs1 = rs1.toNat ∧ inst.rs2 = rs2.toNat
  | .branch _ rs1 rs2 offset =>
    inst.rs1 = rs1.toNat ∧ inst.rs2 = rs2.toNat ∧
      inst.immediate = (offset ++ (0 : BitVec 1)).signExtend 32
  | .upper _ rd imm20 => inst.rd = rd.toNat ∧ inst.immediate = imm20 ++ (0 : BitVec 12)
  | .jal rd offset =>
    inst.rd = rd.toNat ∧ inst.immediate = (offset ++ (0 : BitVec 1)).signExtend 32

/-- What a decoder has to make of an instruction. -/
structure Decoded (i : Rv32i) (inst : Inst) : Prop where
  op : inst.op = i.const
  format : inst.format = i.format
  operands : i.Operands inst

/-- The instructions that `inst_decode` gets right: all but SRAI, and SLTIU only
    where zero extension is sign extension. -/
def Decodable : Rv32i → Prop
  | .imm .sltiu _ _ imm12 => imm12.msb = false
  | .shift .srai _ _ _ => False
  | _ => True

end Rv32i

theorem getLsbD_instGet (w mask : Word) (k i : ℕ) :
    (instGet w mask k).getLsbD i = (w.getLsbD (k + i) && mask.getLsbD (k + i)) := by
  simp [instGet]

theorem instGet_eq {mask w : Word} {k n : ℕ} {x : BitVec n}
    (hm : ∀ i < 32, mask.getLsbD i = (decide (k ≤ i) && decide (i < k + n)))
    (hx : ∀ i < n, w.getLsbD (k + i) = x.getLsbD i) : instGet w mask k = x.setWidth 32 := by
  refine BitVec.eq_of_getLsbD_eq fun i hi => ?_
  rw [getLsbD_instGet, BitVec.getLsbD_setWidth]
  by_cases hk : k + i < 32
  · rw [hm (k + i) hk]
    by_cases hn : i < n
    · simp [hn, hi, hx i hn]
    · rw [BitVec.getLsbD_of_ge x i (by omega)]
      simp [hn]
  · rw [BitVec.getLsbD_of_ge w _ (by omega)]
    by_cases hn : i < n
    · rw [← hx i hn, BitVec.getLsbD_of_ge w _ (by omega)]
      simp
    · rw [BitVec.getLsbD_of_ge x i (by omega)]
      simp

theorem getLsbD_rounds {mask : Word} {n : ℕ} (hm : ∀ j < 32, j ≠ n → mask.getLsbD j = false)
    (k : ℕ) : ∀ j < 32, ((List.range k).foldl signExtendRound mask).getLsbD j =
      (decide (n ≤ j) && decide (j < n + 2 ^ k) && mask.getLsbD n) := by
  induction k with
  | zero =>
    intro j hj
    by_cases h : j = n
    · subst h; simp
    · rw [List.range_zero, List.foldl_nil, hm j hj h]
      have : ¬(n ≤ j ∧ j < n + 1) := by omega
      by_cases hn : n ≤ j
      · simp [hn]; omega
      · simp [hn]
  | succ k ih =>
    intro j hj
    simp only [List.range_succ, List.foldl_append, List.foldl_cons, List.foldl_nil,
      signExtendRound, BitVec.getLsbD_or, BitVec.getLsbD_shiftLeft, Nat.one_shiftLeft, ih j hj]
    rw [ih (j - 2 ^ k) (by have := Nat.sub_le j (2 ^ k); omega)]
    have hp : 2 ^ (k + 1) = 2 ^ k + 2 ^ k := by rw [Nat.pow_succ]; omega
    have hpos : 0 < 2 ^ k := Nat.two_pow_pos k
    rw [hp]
    cases hb : mask.getLsbD n with
    | false => simp
    | true =>
      simp only [Bool.and_true, hj, decide_true, Bool.true_and]
      grind

theorem signExtend_setWidth {n : ℕ} (h0 : 0 < n) (h32 : n ≤ 32) (x : BitVec n) :
    signExtend (x.setWidth 32) n = x.signExtend 32 := by
  have hbit : ∀ j < 32, ((1 : Word) <<< (n - 1)).getLsbD j = decide (j = n - 1) := by
    intro j hj
    simp only [BitVec.getLsbD_shiftLeft, hj, decide_true, Bool.true_and]
    by_cases hlt : j < n - 1
    · simp [hlt]; omega
    · by_cases he : j = n - 1
      · simp [he]
      · have : j - (n - 1) ≠ 0 := by omega
        simp [hlt, he, BitVec.getLsbD_one, this]
  have hmask : ∀ j < 32, ((x.setWidth 32 : Word) &&& (1 : Word) <<< (n - 1)).getLsbD j =
      (decide (j = n - 1) && x.msb) := by
    intro j hj
    rw [BitVec.getLsbD_and, hbit j hj, BitVec.getLsbD_setWidth, BitVec.msb_eq_getLsbD_last]
    by_cases he : j = n - 1
    · subst he
      simp [hj]
    · simp [he]
  refine BitVec.eq_of_getLsbD_eq fun j hj => ?_
  rw [signExtend, BitVec.getLsbD_or, getLsbD_rounds (n := n - 1) _ 5 j hj,
    BitVec.getLsbD_signExtend, hmask (n - 1) (by omega), BitVec.getLsbD_setWidth]
  · have h5 : j < n - 1 + 2 ^ 5 := by omega
    simp only [hj, h5, decide_true, Bool.true_and, Bool.and_true]
    by_cases hlt : j < n - 1
    · have hn : j < n := by omega
      have hle : ¬n ≤ j + 1 := by omega
      simp [hn, hle]
    · by_cases hn : j < n
      · obtain rfl : j = n - 1 := by omega
        simp [hn, BitVec.msb_eq_getLsbD_last]
      · rw [BitVec.getLsbD_of_ge x j (by omega)]
        have hle : n - 1 ≤ j := by omega
        simp [hn, hle]
  · intro j hj hne
    rw [hmask j hj]
    simp [hne]

section
variable (funct7 : BitVec 7) (rs2 rs1 : BitVec 5) (funct3 : BitVec 3) (rd : BitVec 5)
    (opcode : BitVec 7)

theorem getLsbD_fieldsWord (i : ℕ) : (fieldsWord funct7 rs2 rs1 funct3 rd opcode).getLsbD i =
    if i < 7 then opcode.getLsbD i
    else if i < 12 then rd.getLsbD (i - 7)
    else if i < 15 then funct3.getLsbD (i - 12)
    else if i < 20 then rs1.getLsbD (i - 15)
    else if i < 25 then rs2.getLsbD (i - 20)
    else funct7.getLsbD (i - 25) := by
  simp only [fieldsWord]
  grind

theorem instGet_opcode : instGet (fieldsWord funct7 rs2 rs1 funct3 rd opcode) opcodeMask 0 =
    opcode.setWidth 32 :=
  instGet_eq (by decide) fun i hi => by rw [getLsbD_fieldsWord]; grind

theorem instGet_rd : instGet (fieldsWord funct7 rs2 rs1 funct3 rd opcode) rdMask 7 =
    rd.setWidth 32 :=
  instGet_eq (by decide) fun i hi => by rw [getLsbD_fieldsWord]; grind

theorem instGet_funct3 : instGet (fieldsWord funct7 rs2 rs1 funct3 rd opcode) funct3Mask 12 =
    funct3.setWidth 32 :=
  instGet_eq (by decide) fun i hi => by rw [getLsbD_fieldsWord]; grind

theorem instGet_rs1 : instGet (fieldsWord funct7 rs2 rs1 funct3 rd opcode) rs1Mask 15 =
    rs1.setWidth 32 :=
  instGet_eq (by decide) fun i hi => by rw [getLsbD_fieldsWord]; grind

theorem instGet_rs2 : instGet (fieldsWord funct7 rs2 rs1 funct3 rd opcode) rs2Mask 20 =
    rs2.setWidth 32 :=
  instGet_eq (by decide) fun i hi => by rw [getLsbD_fieldsWord]; grind

theorem instGet_funct7 : instGet (fieldsWord funct7 rs2 rs1 funct3 rd opcode) funct7Mask 25 =
    funct7.setWidth 32 :=
  instGet_eq (by decide) fun i hi => by rw [getLsbD_fieldsWord]; grind

theorem instGet_imm : instGet (fieldsWord funct7 rs2 rs1 funct3 rd opcode) immMask 20 =
    (funct7 ++ rs2).setWidth 32 :=
  instGet_eq (by decide) fun i hi => by rw [getLsbD_fieldsWord, BitVec.getLsbD_append]; grind

theorem instDecode_regs : (instDecode (fieldsWord funct7 rs2 rs1 funct3 rd opcode)).rd = rd.toNat ∧
    (instDecode (fieldsWord funct7 rs2 rs1 funct3 rd opcode)).rs1 = rs1.toNat ∧
    (instDecode (fieldsWord funct7 rs2 rs1 funct3 rd opcode)).rs2 = rs2.toNat := by
  have h : ∀ x : BitVec 5, x.toNat % 2 ^ 32 = x.toNat := by
    intro x
    exact Nat.mod_eq_of_lt (by omega)
  simp only [instDecode, instGet_rd, instGet_rs1, instGet_rs2, BitVec.toNat_setWidth, h]
  simp
end

theorem instBranchImm_encode (op : BranchOp) (rs1 rs2 : BitVec 5) (offset : BitVec 12) :
    instBranchImm (Rv32i.branch op rs1 rs2 offset).encode =
      (offset ++ (0 : BitVec 1)).signExtend 32 := by
  rw [instBranchImm, ← signExtend_setWidth (n := 13) (by omega) (by omega)]
  congr 1
  refine BitVec.eq_of_getLsbD_eq fun i hi => ?_
  simp only [Rv32i.encode, BitVec.getLsbD_or, BitVec.getLsbD_shiftLeft, getLsbD_instGet,
    getLsbD_fieldsWord]
  interval_cases i <;> simp <;> grind

theorem instStoreImm_encode (op : StoreOp) (rs1 rs2 : BitVec 5) (imm12 : BitVec 12) :
    instStoreImm (Rv32i.store op rs1 rs2 imm12).encode = imm12.signExtend 32 := by
  rw [instStoreImm, ← signExtend_setWidth (n := 12) (by omega) (by omega)]
  congr 1
  refine BitVec.eq_of_getLsbD_eq fun i hi => ?_
  simp only [Rv32i.encode, BitVec.getLsbD_or, BitVec.getLsbD_shiftLeft, getLsbD_instGet,
    getLsbD_fieldsWord, funct7Mask, rdMask]
  interval_cases i <;> simp

theorem instJalImm_encode (rd : BitVec 5) (offset : BitVec 20) :
    instJalImm (Rv32i.jal rd offset).encode = (offset ++ (0 : BitVec 1)).signExtend 32 := by
  rw [instJalImm, ← signExtend_setWidth (n := 21) (by omega) (by omega)]
  congr 1
  refine BitVec.eq_of_getLsbD_eq fun i hi => ?_
  simp only [Rv32i.encode, BitVec.getLsbD_or, getLsbD_instGet, getLsbD_fieldsWord]
  interval_cases i <;> simp <;> grind

theorem uImm_encode (op : UpperOp) (rd : BitVec 5) (imm20 : BitVec 20) :
    (Rv32i.upper op rd imm20).encode &&& uImmMask = imm20 ++ (0 : BitVec 12) := by
  refine BitVec.eq_of_getLsbD_eq fun i hi => ?_
  simp only [Rv32i.encode, BitVec.getLsbD_and, getLsbD_fieldsWord, uImmMask, immMask, funct7Mask,
    rs2Mask, rs1Mask, funct3Mask]
  interval_cases i <;> simp <;> grind

theorem instSelect_imm (op : ImmOp) (rd rs1 : BitVec 5) (imm12 : BitVec 12) :
    instSelect (Rv32i.imm op rd rs1 imm12).encode =
      (.i, op.const, if op = .sltiu then imm12.setWidth 32 else imm12.signExtend 32) := by
  have himm : imm12.extractLsb' 5 7 ++ imm12.extractLsb' 0 5 = imm12 :=
    BitVec.extractLsb'_append_extractLsb'
  simp only [instSelect, Rv32i.encode, instGet_opcode, instGet_funct3, instGet_imm, himm]
  rw [signExtend_setWidth (by omega) (by omega)]
  cases op <;> simp [ImmOp.opcode, ImmOp.funct3, ImmOp.const, Opcode.imm, Opcode.load,
    Opcode.jalr, InstOp.slli, InstOp.srli, InstOp.sltiu]

theorem instSelect_shift (op : ShiftOp) (rd rs1 shamt : BitVec 5) :
    instSelect (Rv32i.shift op rd rs1 shamt).encode =
      (.i, if op = .srai then InstOp.srli else op.const, (op.funct7 ++ shamt).signExtend 32) := by
  simp only [instSelect, Rv32i.encode, instGet_opcode, instGet_funct3, instGet_imm]
  rw [signExtend_setWidth (by omega) (by omega)]
  cases op <;> simp [ShiftOp.funct3, ShiftOp.const, Opcode.imm, InstOp.slli, InstOp.srli,
    InstOp.sltiu]

theorem instSelect_store (op : StoreOp) (rs1 rs2 : BitVec 5) (imm12 : BitVec 12) :
    instSelect (Rv32i.store op rs1 rs2 imm12).encode = (.s, op.const, imm12.signExtend 32) := by
  rw [← instStoreImm_encode op rs1 rs2 imm12]
  simp only [instSelect, Rv32i.encode, instGet_opcode, instGet_funct3]
  cases op <;> rfl

theorem instSelect_reg (op : RegOp) (rd rs1 rs2 : BitVec 5) :
    (instSelect (Rv32i.reg op rd rs1 rs2).encode).1 = .r ∧
      (instSelect (Rv32i.reg op rd rs1 rs2).encode).2.1 = op.const := by
  simp only [instSelect, Rv32i.encode, instGet_opcode, instGet_funct3, instGet_funct7]
  cases op <;> exact ⟨rfl, rfl⟩

theorem instSelect_branch (op : BranchOp) (rs1 rs2 : BitVec 5) (offset : BitVec 12) :
    instSelect (Rv32i.branch op rs1 rs2 offset).encode =
      (.b, op.const, (offset ++ (0 : BitVec 1)).signExtend 32) := by
  rw [← instBranchImm_encode op rs1 rs2 offset]
  simp only [instSelect, Rv32i.encode, instGet_opcode, instGet_funct3]
  cases op <;> rfl

theorem instSelect_upper_encode (op : UpperOp) (rd : BitVec 5) (imm20 : BitVec 20) :
    instSelect (Rv32i.upper op rd imm20).encode = (.u, op.const, imm20 ++ (0 : BitVec 12)) := by
  rw [← uImm_encode op rd imm20]
  simp only [instSelect, Rv32i.encode, instGet_opcode]
  cases op <;> rfl

theorem instSelect_jal (rd : BitVec 5) (offset : BitVec 20) :
    instSelect (Rv32i.jal rd offset).encode =
      (.j, InstOp.jal, (offset ++ (0 : BitVec 1)).signExtend 32) := by
  rw [← instJalImm_encode rd offset]
  simp only [instSelect, Rv32i.encode, instGet_opcode]
  rfl

theorem setWidth_eq_signExtend_iff {n : ℕ} (x : BitVec n) (h32 : n < 32) :
    x.setWidth 32 = x.signExtend 32 ↔ x.msb = false := by
  constructor
  · intro h
    have hb := congrArg (fun w : Word => w.getLsbD n) h
    simp only [BitVec.getLsbD_setWidth, BitVec.getLsbD_signExtend, h32,
      BitVec.getLsbD_of_ge x n (Nat.le_refl n), Nat.lt_irrefl, ↓reduceIte] at hb
    simpa using hb.symm
  · intro h
    exact (BitVec.signExtend_eq_setWidth_of_msb_false h).symm

theorem signExtend_zero_append (x : BitVec 5) :
    ((0 : BitVec 7) ++ x).signExtend 32 = x.setWidth 32 := by
  rw [← (setWidth_eq_signExtend_iff ((0 : BitVec 7) ++ x) (by omega)).2
    (by rw [BitVec.msb_append]; rfl)]
  refine BitVec.eq_of_getLsbD_eq fun i hi => ?_
  rw [BitVec.getLsbD_setWidth, BitVec.getLsbD_setWidth, BitVec.getLsbD_append]
  by_cases h5 : i < 5
  · rw [if_pos h5]
  · rw [if_neg h5, BitVec.getLsbD_of_ge x i (by omega)]
    simp

theorem instDecode_op {w : Word} (h : w ≠ instMagicHcf) :
    (instDecode w).op = (instSelect w).2.1 := by simp [instDecode, h]

theorem ImmOp.decoded_iff (op : ImmOp) (rd rs1 : BitVec 5) (imm12 : BitVec 12)
    (h : (Rv32i.imm op rd rs1 imm12).encode ≠ instMagicHcf) :
    (Rv32i.imm op rd rs1 imm12).Decoded (instDecode (Rv32i.imm op rd rs1 imm12).encode) ↔
      (Rv32i.imm op rd rs1 imm12).Decodable := by
  have hs := instSelect_imm op rd rs1 imm12
  have hr := instDecode_regs (imm12.extractLsb' 5 7) (imm12.extractLsb' 0 5) rs1 op.funct3 rd
    op.opcode
  have hi : (instDecode (Rv32i.imm op rd rs1 imm12).encode).immediate =
      if op = .sltiu then imm12.setWidth 32 else imm12.signExtend 32 := congrArg (·.2.2) hs
  by_cases ho : op = .sltiu
  · subst ho
    rw [if_pos rfl] at hi
    rw [Rv32i.Decodable, ← setWidth_eq_signExtend_iff imm12 (by omega), ← hi]
    refine ⟨fun d => d.operands.2.2, fun hd => ⟨?_, congrArg (·.1) hs, hr.1, hr.2.1, hd⟩⟩
    rw [instDecode_op h, hs, Rv32i.const]
  · rw [if_neg ho] at hi
    have hd : (Rv32i.imm op rd rs1 imm12).Decodable := by
      cases op <;> simp_all [Rv32i.Decodable]
    refine iff_of_true ⟨?_, congrArg (·.1) hs, hr.1, hr.2.1, hi⟩ hd
    rw [instDecode_op h, hs, Rv32i.const]

theorem ShiftOp.decoded_iff (op : ShiftOp) (rd rs1 shamt : BitVec 5)
    (h : (Rv32i.shift op rd rs1 shamt).encode ≠ instMagicHcf) :
    (Rv32i.shift op rd rs1 shamt).Decoded (instDecode (Rv32i.shift op rd rs1 shamt).encode) ↔
      (Rv32i.shift op rd rs1 shamt).Decodable := by
  have hs := instSelect_shift op rd rs1 shamt
  have hr := instDecode_regs op.funct7 shamt rs1 op.funct3 rd 0b0010011
  have ho := (instDecode_op h).trans (congrArg (·.2.1) hs)
  by_cases hsra : op = .srai
  · subst hsra
    refine iff_of_false (fun d => ?_) id
    have := ho.symm.trans d.op
    simp [Rv32i.const, ShiftOp.const, InstOp.srli] at this
  · rw [if_neg hsra] at ho
    have hf : op.funct7 = 0 := by
      cases op <;> simp_all [ShiftOp.funct7]
    have hd : (Rv32i.shift op rd rs1 shamt).Decodable := by
      cases op <;> simp_all [Rv32i.Decodable]
    have hi : (op.funct7 ++ shamt).signExtend 32 = shamt.setWidth 32 :=
      hf ▸ signExtend_zero_append shamt
    exact iff_of_true
      ⟨ho, congrArg (·.1) hs, hr.1, hr.2.1, (congrArg (·.2.2) hs).trans hi⟩ hd

theorem decode_encode (i : Rv32i) (h : i.encode ≠ instMagicHcf) :
    i.Decoded (instDecode i.encode) ↔ i.Decodable := by
  have op := instDecode_op h
  cases i with
  | imm o rd rs1 imm12 => exact o.decoded_iff rd rs1 imm12 h
  | shift o rd rs1 shamt => exact o.decoded_iff rd rs1 shamt h
  | store o rs1 rs2 imm12 =>
    have hs := instSelect_store o rs1 rs2 imm12
    have hr := instDecode_regs (imm12.extractLsb' 5 7) rs2 rs1 o.funct3 (imm12.extractLsb' 0 5)
      0b0100011
    refine iff_of_true ⟨?_, congrArg (·.1) hs, hr.2.1, hr.2.2, congrArg (·.2.2) hs⟩ trivial
    rw [op, hs, Rv32i.const]
  | reg o rd rs1 rs2 =>
    have hs := instSelect_reg o rd rs1 rs2
    have hr := instDecode_regs o.funct7 rs2 rs1 o.funct3 rd 0b0110011
    exact iff_of_true ⟨op.trans hs.2, hs.1, hr⟩ trivial
  | branch o rs1 rs2 offset =>
    have hs := instSelect_branch o rs1 rs2 offset
    have hr := instDecode_regs (offset.extractLsb' 11 1 ++ offset.extractLsb' 4 6) rs2 rs1 o.funct3
      (offset.extractLsb' 0 4 ++ offset.extractLsb' 10 1) 0b1100011
    refine iff_of_true ⟨?_, congrArg (·.1) hs, hr.2.1, hr.2.2, congrArg (·.2.2) hs⟩ trivial
    rw [op, hs, Rv32i.const]
  | upper o rd imm20 =>
    have hs := instSelect_upper_encode o rd imm20
    have hr := instDecode_regs (imm20.extractLsb' 13 7) (imm20.extractLsb' 8 5)
      (imm20.extractLsb' 3 5) (imm20.extractLsb' 0 3) rd o.opcode
    refine iff_of_true ⟨?_, congrArg (·.1) hs, hr.1, congrArg (·.2.2) hs⟩ trivial
    rw [op, hs, Rv32i.const]
  | jal rd offset =>
    have hs := instSelect_jal rd offset
    have hr := instDecode_regs (offset.extractLsb' 19 1 ++ offset.extractLsb' 4 6)
      (offset.extractLsb' 0 4 ++ offset.extractLsb' 10 1) (offset.extractLsb' 14 5)
      (offset.extractLsb' 11 3) rd 0b1101111
    refine iff_of_true ⟨?_, congrArg (·.1) hs, hr.1, congrArg (·.2.2) hs⟩ trivial
    rw [op, hs, Rv32i.const]

/-- `jalr x1, -4(x2)` -/
theorem decode_encode_jalr :
    (Rv32i.imm .jalr 1 2 0xffc).Decoded (instDecode (Rv32i.imm .jalr 1 2 0xffc).encode) ↔
      (Rv32i.imm .jalr 1 2 0xffc).Decodable :=
  decode_encode _ (by decide)

/-- `srai x1, x1, 1` is taken for SRLI with a shift amount of 1025. -/
theorem srai_decoded_as_srli :
    (Rv32i.shift .srai 1 1 1).encode = 0x4010d093 ∧
      (instDecode 0x4010d093).op = ShiftOp.srli.const ∧
      (instDecode 0x4010d093).immediate = 0x401 ∧
      ¬(Rv32i.shift .srai 1 1 1).Decoded (instDecode 0x4010d093) := by
  refine ⟨by decide, by decide, by decide, fun d => ?_⟩
  exact absurd d.op (by decide)

end TomasuloCpu
