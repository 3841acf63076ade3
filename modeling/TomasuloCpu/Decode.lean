import TomasuloCpu.RegStore

set_option autoImplicit false

/-!
# What the decoder accepts

The fields of a decoded instruction whose op is not that of an invalid one.
-/
namespace TomasuloCpu

def opcodeFormat (opcode : Opcode) : InstFormat :=
  if opcode = Opcode.imm ∨ opcode = Opcode.load ∨ opcode = Opcode.jalr then .i
  else if opcode = Opcode.lui ∨ opcode = Opcode.auipc then .u
  else if opcode = Opcode.op then .r
  else if opcode = Opcode.jal then .j
  else if opcode = Opcode.branch then .b
  else if opcode = Opcode.store then .s
  else .unimp

def opcodes : List Opcode :=
  [Opcode.load, Opcode.store, Opcode.imm, Opcode.op, Opcode.auipc, Opcode.lui, Opcode.branch,
    Opcode.jalr, Opcode.jal]

/-- A decoded instruction with a known opcode. -/
structure Legal (inst : Inst) : Prop where
  rs1 : inst.rs1 ∈ regIds
  rs2 : inst.rs2 ∈ regIds
  rd : inst.rd ∈ regIds
  known : inst.opcode ∈ opcodes
  format : inst.format = opcodeFormat inst.opcode
  op : (inst.op = InstOp.hcf ∧ inst.opcode = Opcode.imm) ∨
    (inst.op ≠ InstOp.hcf ∧ inst.op &&& opcodeMask = inst.opcode)
  width : inst.op ≠ InstOp.hcf → inst.opcode = Opcode.load ∨ inst.opcode = Opcode.store →
    instLsOp inst = inst.width
  upper : inst.opcode = Opcode.lui ∨ inst.opcode = Opcode.auipc → inst.op = inst.opcode

theorem instGet_le (w mask : Word) (k : ℕ) : (instGet w mask k).toNat ≤ mask.toNat >>> k := by
  simp only [instGet, BitVec.toNat_ushiftRight, BitVec.toNat_and, Nat.shiftRight_eq_div_pow]
  exact Nat.div_le_div_right Nat.and_le_right

theorem toNat_mem_regIds {w : Word} (h : w.toNat ≤ 31) : (w.toNat : RegId) ∈ regIds :=
  List.mem_map.2 ⟨w.toNat, List.mem_range.2 (Nat.lt_succ_of_le h), rfl⟩

theorem getLsbD_opcodeMask (i : ℕ) : opcodeMask.getLsbD i = decide (i < 7) := by
  have h : ∀ i < 32, opcodeMask.getLsbD i = decide (i < 7) := by decide
  by_cases hi : i < 32
  · exact h i hi
  · rw [BitVec.getLsbD_of_ge _ _ (by omega)]
    simp
    omega

theorem opcodeMask_or_shiftLeft (x y : Word) {k : ℕ} (hk : 7 ≤ k) :
    (x ||| y <<< k) &&& opcodeMask = x &&& opcodeMask := by
  refine BitVec.eq_of_getLsbD_eq fun i hi => ?_
  simp only [BitVec.getLsbD_and, BitVec.getLsbD_or, BitVec.getLsbD_shiftLeft, getLsbD_opcodeMask]
  by_cases h7 : i < 7
  · have : i < k := by omega
    simp [h7, this]
  · simp [h7]

theorem instGet_opcodeMask (w : Word) :
    instGet w opcodeMask 0 &&& opcodeMask = instGet w opcodeMask 0 := by
  simp [instGet, BitVec.and_assoc]

theorem opcode_or_ushiftRight {x y : Word} (hx : x.toNat < 128) (hy : y.toNat < 8) :
    (x ||| y <<< 7) >>> 7 = y := by
  refine BitVec.eq_of_toNat_eq ?_
  have hs : (y <<< 7).toNat = y.toNat * 2 ^ 7 := by
    rw [BitVec.toNat_shiftLeft, Nat.shiftLeft_eq, Nat.mod_eq_of_lt (by omega)]
  rw [BitVec.toNat_ushiftRight, BitVec.toNat_or, hs, Nat.shiftRight_or_distrib,
    Nat.shiftRight_eq_div_pow, Nat.shiftRight_eq_div_pow, Nat.mul_div_cancel _ (by omega),
    Nat.div_eq_of_lt hx, Nat.zero_or]

theorem instSelect_format (w : Word) :
    (instSelect w).1 = opcodeFormat (instGet w opcodeMask 0) := by
  simp only [instSelect, opcodeFormat]
  split_ifs <;> rfl

theorem instSelect_op (w : Word) (h : instGet w opcodeMask 0 ∈ opcodes) :
    (instSelect w).2.1 &&& opcodeMask = instGet w opcodeMask 0 := by
  have hop : (instSelect w).2.1 = instGet w opcodeMask 0 ∨
      (∃ f : Word, (instSelect w).2.1 = instGet w opcodeMask 0 ||| f <<< 7) ∨
      ∃ f g : Word, (instSelect w).2.1 = instGet w opcodeMask 0 ||| f <<< 7 ||| g <<< 10 := by
    simp only [instSelect]
    split_ifs
    all_goals first
      | exact .inl rfl
      | exact .inr (.inl ⟨_, rfl⟩)
      | exact .inr (.inr ⟨_, _, rfl⟩)
      | simp_all [opcodes]
  rcases hop with hop | ⟨f, hop⟩ | ⟨f, g, hop⟩ <;> rw [hop]
  · exact instGet_opcodeMask w
  · rw [opcodeMask_or_shiftLeft _ _ (by omega), instGet_opcodeMask]
  · rw [opcodeMask_or_shiftLeft _ _ (by omega), opcodeMask_or_shiftLeft _ _ (by omega),
      instGet_opcodeMask]

theorem instSelect_unimp (w : Word) (h : instGet w opcodeMask 0 ∉ opcodes) :
    (instSelect w).2.1 = InstOp.unimp := by
  simp only [opcodes, List.mem_cons, List.not_mem_nil, not_or] at h
  simp [instSelect, h]

theorem instSelect_width (w : Word)
    (h : instGet w opcodeMask 0 = Opcode.load ∨ instGet w opcodeMask 0 = Opcode.store) :
    (instSelect w).2.1 >>> 7 = instGet w funct3Mask 12 := by
  have hx : (instGet w opcodeMask 0).toNat < 128 :=
    Nat.lt_of_le_of_lt (instGet_le _ _ _) (by decide)
  have hy : (instGet w funct3Mask 12).toNat < 8 :=
    Nat.lt_of_le_of_lt (instGet_le _ _ _) (by decide)
  have hop := opcode_or_ushiftRight hx hy
  simp only [instSelect]
  rcases h with h | h <;> rw [h] at hop ⊢ <;> exact hop

theorem instSelect_upper (w : Word)
    (h : instGet w opcodeMask 0 = Opcode.lui ∨ instGet w opcodeMask 0 = Opcode.auipc) :
    (instSelect w).2.1 = instGet w opcodeMask 0 := by
  simp only [instSelect]
  rcases h with h | h <;> rw [h] <;> rfl

/-- The op of an opcode with further bits is not one of the two magic numbers. -/
theorem op_ne_magic {op : InstOp} {opcode : Opcode} (h : op &&& opcodeMask = opcode)
    (hk : opcode ∈ opcodes) : op ≠ InstOp.hcf ∧ op ≠ InstOp.unimp := by
  constructor
  · rintro rfl
    rw [← h] at hk
    revert hk
    decide
  · rintro rfl
    rw [← h] at hk
    revert hk
    decide

theorem instDecode_legal {w : Word} (h : (instDecode w).op ≠ InstOp.unimp) :
    Legal (instDecode w) := by
  have hrs1 : (instGet w rs1Mask 15).toNat ≤ 31 := (instGet_le _ _ _).trans (by decide)
  have hrs2 : (instGet w rs2Mask 20).toNat ≤ 31 := (instGet_le _ _ _).trans (by decide)
  have hrd : (instGet w rdMask 7).toNat ≤ 31 := (instGet_le _ _ _).trans (by decide)
  have hknown : instGet w opcodeMask 0 ∈ opcodes := by
    by_contra hk
    by_cases hw : w = instMagicHcf
    · subst hw
      exact hk (by decide)
    · exact h (by simp [instDecode, hw, instSelect_unimp w hk])
  have hsel := instSelect_op w hknown
  refine
    { rs1 := toNat_mem_regIds hrs1
      rs2 := toNat_mem_regIds hrs2
      rd := toNat_mem_regIds hrd
      known := hknown
      format := instSelect_format w
      op := ?_
      width := fun hop hload => ?_
      upper := fun hu => ?_ }
  · by_cases hw : w = instMagicHcf
    · subst hw
      exact .inl ⟨rfl, by decide⟩
    · exact .inr (by simpa [instDecode, hw] using ⟨(op_ne_magic hsel hknown).1, hsel⟩)
  · by_cases hw : w = instMagicHcf
    · exact absurd (by simp [instDecode, hw]) hop
    · simpa [instDecode, instLsOp, hw] using instSelect_width w hload
  · by_cases hw : w = instMagicHcf
    · subst hw
      exact absurd hu (by decide)
    · simpa [instDecode, hw] using instSelect_upper w hu

namespace Legal
variable {inst : Inst} (h : Legal inst)
include h

theorem opcode_of_hcf (ho : inst.op = InstOp.hcf) : inst.opcode = Opcode.imm := by
  rcases h.op with ⟨-, he⟩ | ⟨hn, -⟩
  · exact he
  · exact absurd ho hn

theorem instRobOp_eq : instRobOp inst =
    if inst.op = InstOp.hcf then .hcf
    else if inst.opcode = Opcode.store then .store
    else if inst.opcode = Opcode.branch then .branch
    else if inst.opcode = Opcode.jalr then .jalr
    else .register := by
  rcases h.op with ⟨hop, -⟩ | ⟨hop, he⟩
  · simp [instRobOp, hop]
  · simp [instRobOp, hop, he]

theorem instType_eq : instType inst =
    if inst.opcode = Opcode.load then .loadBuffer
    else if inst.opcode = Opcode.store then .storeBuffer
    else .reservationStation := by
  rcases h.op with ⟨hop, he⟩ | ⟨hop, he⟩
  · simp only [instType, hop, he, ↓reduceIte]
    rfl
  · simp [instType, hop, he]

theorem robOp_store_iff : instRobOp inst = .store ↔ inst.opcode = Opcode.store := by
  have hi := h.opcode_of_hcf
  rw [h.instRobOp_eq]
  split_ifs <;> simp_all
  decide

theorem robOp_branch_iff : instRobOp inst = .branch ↔ inst.opcode = Opcode.branch := by
  have hi := h.opcode_of_hcf
  rw [h.instRobOp_eq]
  split_ifs <;> simp_all <;> decide

theorem robOp_jalr_iff : instRobOp inst = .jalr ↔ inst.opcode = Opcode.jalr := by
  have hi := h.opcode_of_hcf
  rw [h.instRobOp_eq]
  split_ifs <;> simp_all <;> decide

theorem robOp_hcf_iff : instRobOp inst = .hcf ↔ inst.op = InstOp.hcf := by
  rw [h.instRobOp_eq]
  split_ifs <;> simp_all

theorem instType_load_iff : instType inst = .loadBuffer ↔ inst.opcode = Opcode.load := by
  rw [h.instType_eq]
  split_ifs <;> simp_all

theorem instType_store_iff : instType inst = .storeBuffer ↔ inst.opcode = Opcode.store := by
  rw [h.instType_eq]
  split_ifs <;> simp_all
  decide

theorem format_cases :
    (inst.format = .i ∧
      (inst.opcode = Opcode.imm ∨ inst.opcode = Opcode.load ∨ inst.opcode = Opcode.jalr)) ∨
    (inst.format = .u ∧ (inst.opcode = Opcode.lui ∨ inst.opcode = Opcode.auipc)) ∨
    (inst.format = .r ∧ inst.opcode = Opcode.op) ∨ (inst.format = .j ∧ inst.opcode = Opcode.jal) ∨
    (inst.format = .b ∧ inst.opcode = Opcode.branch) ∨
    (inst.format = .s ∧ inst.opcode = Opcode.store) := by
  have hk := h.known
  rw [h.format, opcodeFormat]
  split_ifs <;> simp_all [opcodes]

theorem format_of_jalr (ho : inst.opcode = Opcode.jalr) : inst.format = .i := by
  rw [h.format, ho]
  rfl

theorem format_of_branch (ho : inst.opcode = Opcode.branch) : inst.format = .b := by
  rw [h.format, ho]
  rfl

end Legal

end TomasuloCpu
