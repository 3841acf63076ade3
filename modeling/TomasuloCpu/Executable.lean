import TomasuloCpu.Encode
import TomasuloCpu.Entries

set_option autoImplicit false

/-!
# Words that the executors know

`inst_decode` looks at the opcode only to tell an instruction from another word,
so some words get to executors that do not know their op or size.
-/
namespace TomasuloCpu

/-- The words with a `funct3` and a `funct7` that RV32I has for their opcode, of those
    with an opcode of RV32I. -/
def Executable (w : Word) : Prop :=
  (instGet w opcodeMask 0 = Opcode.op → w.getLsbD 30 = true →
    instGet w funct3Mask 12 = 0 ∨ instGet w funct3Mask 12 = 5) ∧
  (instGet w opcodeMask 0 = Opcode.branch →
    instGet w funct3Mask 12 ≠ 2 ∧ instGet w funct3Mask 12 ≠ 3) ∧
  (instGet w opcodeMask 0 = Opcode.load ∨ instGet w opcodeMask 0 = Opcode.store →
    instGet w funct3Mask 12 ≠ 3 ∧ instGet w funct3Mask 12 ≠ 6 ∧ instGet w funct3Mask 12 ≠ 7)

instance (w : Word) : Decidable (Executable w) := inferInstanceAs (Decidable (_ ∧ _))

def aluOps : List AluOp :=
  [AluOp.add, AluOp.sll, AluOp.slt, AluOp.sltu, AluOp.xor, AluOp.srl, AluOp.or, AluOp.and,
    AluOp.sub, AluOp.sra, AluOp.beq, AluOp.bne, AluOp.blt, AluOp.bge, AluOp.bltu, AluOp.bgeu]

/-- A size that `ls_size` has a case for. -/
def KnownSize (size : LsSize) : Prop := (lsSize size).isSome = true

/-- The units that get an instruction have a case for it. -/
structure Inst.Accepted (inst : Inst) : Prop where
  dispatch : dispatchAsserts inst = true
  alu : instType inst = .reservationStation → stationAluOp inst ∈ aluOps
  size : instType inst ≠ .reservationStation → KnownSize (instLsOp inst)

theorem aluExecute_isSome_iff [WideShift] {op : AluOp} {value1 value2 : Word} :
    (aluExecute op value1 value2).isSome = true ↔ op ∈ aluOps := by
  constructor
  · intro h
    by_contra hn
    simp only [aluOps, List.mem_cons, List.not_mem_nil, or_false, not_or] at hn
    simp [aluExecute, hn] at h
  · intro h
    simp only [aluOps, List.mem_cons, List.not_mem_nil, or_false] at h
    rcases h with rfl | rfl | rfl | rfl | rfl | rfl | rfl | rfl | rfl | rfl | rfl | rfl | rfl |
      rfl | rfl | rfl <;> rfl

theorem memGetSz_isSome_iff {data : MemData} {addr : Addr} {size : LsSize} :
    (memGetSz data addr size).isSome = true ↔ KnownSize size := by
  unfold memGetSz KnownSize lsSize
  split_ifs <;> simp_all

theorem knownSize_iff {size : LsSize} (h : size.toNat < 8) :
    KnownSize size ↔ size ≠ 3 ∧ size ≠ 6 ∧ size ≠ 7 := by
  have hall : ∀ k < 8, (lsSize (BitVec.ofNat 32 k)).isSome = true ↔
      BitVec.ofNat 32 k ≠ 3 ∧ BitVec.ofNat 32 k ≠ 6 ∧ BitVec.ofNat 32 k ≠ 7 := by decide
  have := hall size.toNat h
  rwa [BitVec.ofNat_toNat, BitVec.setWidth_eq] at this

theorem toNat_funct3 (w : Word) : (instGet w funct3Mask 12).toNat < 8 :=
  Nat.lt_of_le_of_lt (instGet_le _ _ _) (by decide)

theorem toNat_opcode (w : Word) : (instGet w opcodeMask 0).toNat < 128 :=
  Nat.lt_of_le_of_lt (instGet_le _ _ _) (by decide)

theorem instGet_funct7Bit (w : Word) :
    instGet (instGet w funct7Mask 25) 0b0100000 5 = boolWord (w.getLsbD 30) := by
  have hm : ∀ i < 32, funct7Mask.getLsbD i = decide (25 ≤ i) := by decide
  have hb : ∀ i < 32, (0b0100000 : Word).getLsbD i = decide (i = 5) := by decide
  refine BitVec.eq_of_getLsbD_eq fun i hi => ?_
  rw [getLsbD_instGet, getLsbD_instGet]
  by_cases h0 : i = 0
  · subst h0
    rw [hb 5 (by omega), hm 30 (by omega)]
    cases w.getLsbD 30 <;> rfl
  · by_cases h5 : 5 + i < 32
    · rw [hb (5 + i) h5]
      cases w.getLsbD 30 <;> simp [boolWord, h0, BitVec.getLsbD_one]
    · rw [BitVec.getLsbD_of_ge (0b0100000 : Word) _ (by omega)]
      cases w.getLsbD 30 <;> simp [boolWord, h0, BitVec.getLsbD_one]

theorem op_ushiftRight (w : Word) (b : Bool) :
    (instGet w opcodeMask 0 ||| instGet w funct3Mask 12 <<< 7 ||| boolWord b <<< 10) >>> 7 =
      instGet w funct3Mask 12 ||| boolWord b <<< 3 := by
  rw [BitVec.ushiftRight_or_distrib, opcode_or_ushiftRight (toNat_opcode w) (toNat_funct3 w)]
  cases b <;> rfl

theorem instAluOp_decode {w : Word} (hw : w ≠ instMagicHcf)
    (hk : instGet w opcodeMask 0 ∈ opcodes) : instAluOp (instDecode w) =
      (instSelect w).2.1 >>> 7 ||| if instGet w opcodeMask 0 = Opcode.branch then 16 else 0 := by
  have hn : (instSelect w).2.1 ≠ InstOp.hcf := (op_ne_magic (instSelect_op w hk) hk).1
  rw [instAluOp, instDecode_op hw, if_neg hn]
  rfl

/-- The ops of the three opcodes that give their own to an ALU. -/
theorem instAluOp_reg {w : Word} (h : instGet w opcodeMask 0 = Opcode.op) :
    instAluOp (instDecode w) =
      instGet w funct3Mask 12 ||| boolWord (w.getLsbD 30) <<< 3 := by
  have hw : w ≠ instMagicHcf := by
    rintro rfl
    exact absurd h (by decide)
  have hs : (instSelect w).2.1 = instGet w opcodeMask 0 ||| instGet w funct3Mask 12 <<< 7 |||
      boolWord (w.getLsbD 30) <<< 10 := by
    rw [← instGet_funct7Bit]
    simp only [instSelect, h]
    rfl
  rw [instAluOp_decode hw (by rw [h]; decide), hs, op_ushiftRight, h]
  exact BitVec.or_zero

theorem instAluOp_branch {w : Word} (h : instGet w opcodeMask 0 = Opcode.branch) :
    instAluOp (instDecode w) = instGet w funct3Mask 12 ||| 16 := by
  have hw : w ≠ instMagicHcf := by
    rintro rfl
    exact absurd h (by decide)
  have hs : (instSelect w).2.1 = instGet w opcodeMask 0 ||| instGet w funct3Mask 12 <<< 7 := by
    simp only [instSelect, h]
    rfl
  rw [instAluOp_decode hw (by rw [h]; decide), hs,
    opcode_or_ushiftRight (toNat_opcode w) (toNat_funct3 w), if_pos h]

theorem instAluOp_imm {w : Word} (hw : w ≠ instMagicHcf)
    (h : instGet w opcodeMask 0 = Opcode.imm) :
    instAluOp (instDecode w) = instGet w funct3Mask 12 := by
  have hs : (instSelect w).2.1 = instGet w opcodeMask 0 ||| instGet w funct3Mask 12 <<< 7 := by
    simp only [instSelect, h]
    rfl
  rw [instAluOp_decode hw (by rw [h]; decide), hs,
    opcode_or_ushiftRight (toNat_opcode w) (toNat_funct3 w), h]
  exact BitVec.or_zero

theorem funct3_elim {P : Word → Prop} (h : ∀ k < 8, P (BitVec.ofNat 32 k)) (w : Word) :
    P (instGet w funct3Mask 12) := by
  have := h _ (toNat_funct3 w)
  rwa [BitVec.ofNat_toNat, BitVec.setWidth_eq] at this

theorem dispatchAsserts_decode {w : Word} (h : (instDecode w).op ≠ InstOp.unimp) :
    dispatchAsserts (instDecode w) = true := by
  have hl := instDecode_legal h
  rcases hl.format_cases with ⟨hf, ho | ho | ho⟩ | ⟨hf, ho | ho⟩ | ⟨hf, ho⟩ | ⟨hf, ho⟩ | ⟨hf, ho⟩ |
    ⟨hf, ho⟩
  · simp [dispatchAsserts, hf, ho]
  · simp [dispatchAsserts, hf, ho]
  · simp [dispatchAsserts, hf, ho]
  · simp [dispatchAsserts, hf, hl.upper (.inl ho), ho]
  · simp [dispatchAsserts, hf, hl.upper (.inr ho), ho]
  · simp [dispatchAsserts, hf]
  · have hw : w ≠ instMagicHcf := by
      rintro rfl
      exact absurd ho (by decide)
    have hj : (instSelect w).2.1 = InstOp.jal := by
      have ho : instGet w opcodeMask 0 = Opcode.jal := ho
      simp only [instSelect, ho]
      rfl
    simp [dispatchAsserts, hf, instDecode_op hw, hj]
  · simp [dispatchAsserts, hf]
  · simp [dispatchAsserts, hf]

theorem executable_memory {w : Word}
    (ho : instGet w opcodeMask 0 = Opcode.load ∨ instGet w opcodeMask 0 = Opcode.store) :
    Executable w ↔ KnownSize (instLsOp (instDecode w)) := by
  have hw : w ≠ instMagicHcf := by
    rintro rfl
    exact absurd ho (by decide)
  have hs : instLsOp (instDecode w) = instGet w funct3Mask 12 := by
    rw [instLsOp, instDecode_op hw, instSelect_width w ho]
  rw [hs, knownSize_iff (toNat_funct3 w)]
  have hop : instGet w opcodeMask 0 ≠ Opcode.op := by rcases ho with h | h <;> rw [h] <;> decide
  have hb : instGet w opcodeMask 0 ≠ Opcode.branch := by rcases ho with h | h <;> rw [h] <;> decide
  simp [Executable, hop, hb, ho]

theorem executable_reg {w : Word} (ho : instGet w opcodeMask 0 = Opcode.op) :
    Executable w ↔ instAluOp (instDecode w) ∈ aluOps := by
  have hall : ∀ b, (b = true → instGet w funct3Mask 12 = 0 ∨ instGet w funct3Mask 12 = 5) ↔
      instGet w funct3Mask 12 ||| boolWord b <<< 3 ∈ aluOps :=
    funct3_elim (P := fun f => ∀ b, (b = true → f = 0 ∨ f = 5) ↔ f ||| boolWord b <<< 3 ∈ aluOps)
      (by decide) w
  rw [instAluOp_reg ho, ← hall]
  simp [Executable, ho, Opcode.op, Opcode.branch, Opcode.load, Opcode.store]

theorem executable_branch {w : Word} (ho : instGet w opcodeMask 0 = Opcode.branch) :
    Executable w ↔ instAluOp (instDecode w) ∈ aluOps := by
  have hall : (instGet w funct3Mask 12 ≠ 2 ∧ instGet w funct3Mask 12 ≠ 3) ↔
      instGet w funct3Mask 12 ||| 16 ∈ aluOps :=
    funct3_elim (P := fun f => (f ≠ 2 ∧ f ≠ 3) ↔ f ||| 16 ∈ aluOps) (by decide) w
  rw [instAluOp_branch ho, ← hall]
  simp [Executable, ho, Opcode.op, Opcode.branch, Opcode.load, Opcode.store]

theorem executable_of_opcode {w : Word} (ho : instGet w opcodeMask 0 ∉
    [Opcode.op, Opcode.branch, Opcode.load, Opcode.store]) : Executable w := by
  simp only [List.mem_cons, List.not_mem_nil, or_false, not_or] at ho
  simp [Executable, ho]

theorem stationAluOp_mem {w : Word} (h : (instDecode w).op ≠ InstOp.unimp)
    (ho : instGet w opcodeMask 0 ∉ [Opcode.op, Opcode.branch, Opcode.load, Opcode.store]) :
    stationAluOp (instDecode w) ∈ aluOps := by
  have hadd : AluOp.add ∈ aluOps := List.mem_cons_self
  rw [stationAluOp]
  split_ifs with hx
  · exact hadd
  · by_cases hw : w = instMagicHcf
    · subst hw
      decide
    · have hi : instGet w opcodeMask 0 = Opcode.imm := by
        have hl := instDecode_legal h
        have hk : instGet w opcodeMask 0 ∈ opcodes := hl.known
        have hf : (instDecode w).format = opcodeFormat (instGet w opcodeMask 0) := hl.format
        have hall : ∀ o ∈ opcodes, o ∈ [Opcode.op, Opcode.branch, Opcode.load, Opcode.store] ∨
            (o = Opcode.jalr ∨ opcodeFormat o = .u ∨ opcodeFormat o = .j) ∨ o = Opcode.imm := by
          intro o hm
          simp only [opcodes, List.mem_cons, List.not_mem_nil, or_false] at hm
          rcases hm with rfl | rfl | rfl | rfl | rfl | rfl | rfl | rfl | rfl <;> decide
        exact ((hall _ hk).resolve_left ho).resolve_left (hf ▸ hx)
      rw [instAluOp_imm hw hi]
      exact funct3_elim (P := fun f => f ∈ aluOps) (by decide) w

/-- The units know exactly the executable words, of those that get to them. -/
theorem executable_iff {w : Word} (h : (instDecode w).op ≠ InstOp.unimp) :
    Executable w ↔ (instDecode w).Accepted := by
  have hd := dispatchAsserts_decode h
  have htype : instType (instDecode w) = if instGet w opcodeMask 0 = Opcode.load then .loadBuffer
      else if instGet w opcodeMask 0 = Opcode.store then .storeBuffer
      else .reservationStation := (instDecode_legal h).instType_eq
  by_cases hm : instGet w opcodeMask 0 = Opcode.load ∨ instGet w opcodeMask 0 = Opcode.store
  · have ht : instType (instDecode w) ≠ .reservationStation := by
      rw [htype]
      rcases hm with ho | ho <;> rw [ho] <;> decide
    rw [executable_memory hm]
    exact ⟨fun hs => ⟨hd, fun he => absurd he ht, fun _ => hs⟩, fun ha => ha.size ht⟩
  · rw [not_or] at hm
    have ht : instType (instDecode w) = .reservationStation := by
      rw [htype, if_neg hm.1, if_neg hm.2]
    have halu : (instDecode w).Accepted ↔ stationAluOp (instDecode w) ∈ aluOps :=
      ⟨fun ha => ha.alu ht, fun hs => ⟨hd, fun _ => hs, fun he => absurd ht he⟩⟩
    rw [halu]
    by_cases hb : instGet w opcodeMask 0 = Opcode.op ∨ instGet w opcodeMask 0 = Opcode.branch
    · have hs : stationAluOp (instDecode w) = instAluOp (instDecode w) := by
        have hf : (instDecode w).format = opcodeFormat (instGet w opcodeMask 0) :=
          (instDecode_legal h).format
        refine if_neg ?_
        rw [hf, show (instDecode w).opcode = instGet w opcodeMask 0 from rfl]
        rcases hb with ho | ho <;> rw [ho] <;> decide
      rw [hs]
      exact hb.elim executable_reg executable_branch
    · have hn : instGet w opcodeMask 0 ∉
          [Opcode.op, Opcode.branch, Opcode.load, Opcode.store] := by
        simp only [List.mem_cons, List.not_mem_nil, or_false]
        tauto
      exact iff_of_true (executable_of_opcode hn) (stationAluOp_mem h hn)

end TomasuloCpu
