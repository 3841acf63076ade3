import TomasuloCpu.Encode

set_option autoImplicit false

/-!
# Immediates

The immediates of the instruction formats of RV32I, as fields of the word, and
the masks and shifts of `inst.c` that compute them.
-/
namespace TomasuloCpu

def immI (inst : Word) : Word := (inst.extractLsb' 20 12).signExtend 32

def immS (inst : Word) : Word := (inst.extractLsb' 25 7 ++ inst.extractLsb' 7 5).signExtend 32

def immB (inst : Word) : Word :=
  (inst.extractLsb' 31 1 ++ inst.extractLsb' 7 1 ++ inst.extractLsb' 25 6 ++
    inst.extractLsb' 8 4 ++ (0 : BitVec 1)).signExtend 32

def immU (inst : Word) : Word := inst.extractLsb' 12 20 ++ (0 : BitVec 12)

def immJ (inst : Word) : Word :=
  (inst.extractLsb' 31 1 ++ inst.extractLsb' 12 8 ++ inst.extractLsb' 20 1 ++
    inst.extractLsb' 21 10 ++ (0 : BitVec 1)).signExtend 32

namespace InstFormat

def imm : InstFormat → Word → Option Word
  | .i, inst => some (immI inst)
  | .s, inst => some (immS inst)
  | .b, inst => some (immB inst)
  | .u, inst => some (immU inst)
  | .j, inst => some (immJ inst)
  | .r, _ | .unimp, _ => none

def immBits : InstFormat → Word
  | .i => 0xfff00000
  | .s | .b => 0xfe000f80
  | .u | .j => 0xfffff000
  | .r | .unimp => 0

end InstFormat

theorem instJalImm_eq (w : Word) : instJalImm w = immJ w := by
  rw [instJalImm, immJ, ← signExtend_setWidth (n := 21) (by omega) (by omega)]
  congr 1
  refine BitVec.eq_of_getLsbD_eq fun i hi => ?_
  simp only [BitVec.getLsbD_setWidth, BitVec.getLsbD_append, BitVec.getLsbD_or, getLsbD_instGet]
  interval_cases i <;> simp

theorem instBranchImm_eq (w : Word) : instBranchImm w = immB w := by
  rw [instBranchImm, immB, ← signExtend_setWidth (n := 13) (by omega) (by omega)]
  congr 1
  refine BitVec.eq_of_getLsbD_eq fun i hi => ?_
  simp only [BitVec.getLsbD_setWidth, BitVec.getLsbD_append, BitVec.getLsbD_or,
    BitVec.getLsbD_shiftLeft, getLsbD_instGet]
  interval_cases i <;> simp

theorem instStoreImm_eq (w : Word) : instStoreImm w = immS w := by
  rw [instStoreImm, immS, ← signExtend_setWidth (n := 12) (by omega) (by omega)]
  congr 1
  refine BitVec.eq_of_getLsbD_eq fun i hi => ?_
  simp only [BitVec.getLsbD_setWidth, BitVec.getLsbD_append, BitVec.getLsbD_or,
    BitVec.getLsbD_shiftLeft, getLsbD_instGet, funct7Mask, rdMask]
  interval_cases i <;> simp

theorem and_uImmMask (w : Word) : w &&& uImmMask = immU w := by
  refine BitVec.eq_of_getLsbD_eq fun i hi => ?_
  simp only [immU, BitVec.getLsbD_append, BitVec.getLsbD_and, uImmMask, immMask, funct7Mask,
    rs2Mask, rs1Mask, funct3Mask]
  interval_cases i <;> simp

theorem instGet_immMask (w : Word) : instGet w immMask 20 = (w.extractLsb' 20 12).setWidth 32 :=
  instGet_eq (by decide) fun i hi => by simp [hi]

/-- What `inst_decode` makes of a word of each format. -/
def decodedImm (w : Word) : InstFormat → Word
  | .i => if (instSelect w).2.1 = InstOp.sltiu then (w.extractLsb' 20 12).setWidth 32 else immI w
  | .s => immS w
  | .b => immB w
  | .u => immU w
  | .j => immJ w
  | .r | .unimp => immI w

theorem instDecode_immediate (w : Word) :
    (instDecode w).immediate = decodedImm w (instDecode w).format := by
  have hi : signExtend ((w.extractLsb' 20 12).setWidth 32) 12 = immI w := by
    rw [signExtend_setWidth (by omega) (by omega), immI]
  have hnot (x : InstOp) : ¬(x = InstOp.slli ∧ x = InstOp.srli) := by
    rintro ⟨rfl, h⟩
    exact absurd h (by decide)
  change (instSelect w).2.2 = decodedImm w (instSelect w).1
  simp only [instSelect, instJalImm_eq, instBranchImm_eq, instStoreImm_eq, and_uImmMask,
    if_neg (hnot _), instGet_immMask, hi]
  split_ifs <;> simp_all [decodedImm, instSelect]

theorem append_inj {m n : ℕ} {x x' : BitVec m} {y y' : BitVec n} (h : x ++ y = x' ++ y') :
    x = x' ∧ y = y' := by
  constructor
  · rw [← BitVec.extractLsb'_append_eq_left (a := x) (b := y), h,
      BitVec.extractLsb'_append_eq_left]
  · rw [← BitVec.extractLsb'_append_eq_right (a := x) (b := y), h,
      BitVec.extractLsb'_append_eq_right]

theorem signExtend_inj {n : ℕ} (hn : n ≤ 32) {x x' : BitVec n}
    (h : x.signExtend 32 = x'.signExtend 32) : x = x' := by
  apply BitVec.eq_of_toInt_eq
  rw [← BitVec.toInt_signExtend_of_le hn, h, BitVec.toInt_signExtend_of_le hn]

theorem getLsbD_of_field {w w' : Word} {k n i : ℕ} (h : w.extractLsb' k n = w'.extractLsb' k n)
    (hk : k ≤ i) (hn : i < k + n) : w.getLsbD i = w'.getLsbD i := by
  have hb := congrArg (fun x : BitVec n => x.getLsbD (i - k)) h
  have hlt : i - k < n := by omega
  have hik : k + (i - k) = i := by omega
  simpa only [BitVec.getLsbD_extractLsb', hlt, decide_true, Bool.true_and, hik] using hb

theorem setWidth_decodedImm_i (w : Word) :
    (decodedImm w .i).setWidth 12 = w.extractLsb' 20 12 := by
  apply BitVec.eq_of_getLsbD_eq
  intro i hi
  have h32 : i < 32 := by omega
  unfold decodedImm
  dsimp only
  split
  · simp [hi]
  · simp [immI, hi, h32, BitVec.getElem_signExtend]

theorem getLsbD_of_decodedImm {f : InstFormat} {w w' : Word} {i : ℕ}
    (hi : f.immBits.getLsbD i = true) (h : decodedImm w f = decodedImm w' f) :
    w.getLsbD i = w'.getLsbD i := by
  have h32 : i < 32 := BitVec.lt_of_getLsbD hi
  cases f with
  | i =>
    have hfield := setWidth_decodedImm_i w
    rw [h, setWidth_decodedImm_i w'] at hfield
    have hr : ∀ j < 32, InstFormat.i.immBits.getLsbD j = true → 20 ≤ j := by decide
    exact getLsbD_of_field hfield.symm (hr i h32 hi) h32
  | s =>
    obtain ⟨hhi, hlo⟩ := append_inj (signExtend_inj (by omega) h)
    have hr : ∀ j < 32, InstFormat.s.immBits.getLsbD j = true → 25 ≤ j ∨ 7 ≤ j ∧ j < 12 := by
      decide
    rcases hr i h32 hi with hj | ⟨hj, hj'⟩
    · exact getLsbD_of_field hhi hj h32
    · exact getLsbD_of_field hlo hj hj'
  | b =>
    obtain ⟨hrest, -⟩ := append_inj (signExtend_inj (by omega) h)
    obtain ⟨hrest, h8⟩ := append_inj hrest
    obtain ⟨hrest, h25⟩ := append_inj hrest
    obtain ⟨h31, h7⟩ := append_inj hrest
    have hr : ∀ j < 32, InstFormat.b.immBits.getLsbD j = true →
        31 ≤ j ∨ 25 ≤ j ∧ j < 31 ∨ 8 ≤ j ∧ j < 12 ∨ 7 ≤ j ∧ j < 8 := by decide
    rcases hr i h32 hi with hj | ⟨hj, hj'⟩ | ⟨hj, hj'⟩ | ⟨hj, hj'⟩
    · exact getLsbD_of_field h31 hj h32
    · exact getLsbD_of_field h25 hj hj'
    · exact getLsbD_of_field h8 hj hj'
    · exact getLsbD_of_field h7 hj hj'
  | u =>
    obtain ⟨hfield, -⟩ := append_inj h
    have hr : ∀ j < 32, InstFormat.u.immBits.getLsbD j = true → 12 ≤ j := by decide
    exact getLsbD_of_field hfield (hr i h32 hi) h32
  | j =>
    obtain ⟨hrest, -⟩ := append_inj (signExtend_inj (by omega) h)
    obtain ⟨hrest, h21⟩ := append_inj hrest
    obtain ⟨hrest, h20⟩ := append_inj hrest
    obtain ⟨h31, h12⟩ := append_inj hrest
    have hr : ∀ j < 32, InstFormat.j.immBits.getLsbD j = true →
        31 ≤ j ∨ 21 ≤ j ∧ j < 31 ∨ 20 ≤ j ∧ j < 21 ∨ 12 ≤ j ∧ j < 20 := by decide
    rcases hr i h32 hi with hj | ⟨hj, hj'⟩ | ⟨hj, hj'⟩ | ⟨hj, hj'⟩
    · exact getLsbD_of_field h31 hj h32
    · exact getLsbD_of_field h21 hj hj'
    · exact getLsbD_of_field h20 hj hj'
    · exact getLsbD_of_field h12 hj hj'
  | r | unimp => simp [InstFormat.immBits] at hi

theorem instDecode_format_eq {f : InstFormat} {w w' : Word}
    (h : ∀ i < 32, f.immBits.getLsbD i = false → w.getLsbD i = w'.getLsbD i) :
    (instDecode w).format = (instDecode w').format := by
  have hop : instGet w opcodeMask 0 = instGet w' opcodeMask 0 := by
    apply BitVec.eq_of_getLsbD_eq
    intro i hi
    rw [getLsbD_instGet, getLsbD_instGet, getLsbD_opcodeMask, Nat.zero_add]
    by_cases h7 : i < 7
    · have hr : ∀ j < 7, f.immBits.getLsbD j = false := by cases f <;> decide
      rw [h i hi (hr i h7)]
    · simp [h7]
  change (instSelect w).1 = (instSelect w').1
  rw [instSelect_format, instSelect_format, hop]

theorem eq_of_immediate {w w' : Word} (hw : (w ^^^ w') &&& ~~~(instDecode w).format.immBits = 0)
    (h : (instDecode w).immediate = (instDecode w').immediate) : w = w' := by
  have hrest : ∀ i < 32, (instDecode w).format.immBits.getLsbD i = false →
      w.getLsbD i = w'.getLsbD i := by
    intro i hi hf
    have hb := congrArg (fun x : Word => x.getLsbD i) hw
    simp only [BitVec.getLsbD_and, BitVec.getLsbD_xor, BitVec.getLsbD_not, hi, hf, decide_true,
      Bool.not_false, Bool.and_true] at hb
    simpa using hb
  rw [instDecode_immediate, instDecode_immediate, ← instDecode_format_eq hrest] at h
  apply BitVec.eq_of_getLsbD_eq
  intro i hi
  cases hf : (instDecode w).format.immBits.getLsbD i with
  | false => exact hrest i hi hf
  | true => exact getLsbD_of_decodedImm hf h

theorem toInt_signExtend_ofInt {n : ℕ} (hn : n ≤ 32) (h0 : 0 < n) {z : ℤ}
    (hlo : -2 ^ (n - 1) ≤ z) (hhi : z < 2 ^ (n - 1)) :
    ((BitVec.ofInt n z).signExtend 32).toInt = z := by
  rw [BitVec.toInt_signExtend_of_le hn, BitVec.toInt_ofInt_eq_self h0 hlo hhi]

/-- An even offset in units of two bytes. -/
theorem toInt_signExtend_half {n : ℕ} (hn : n < 32) (h0 : 0 < n) {z : ℤ} (hz : 2 ∣ z)
    (hlo : -2 ^ n ≤ z) (hhi : z < 2 ^ n) :
    ((BitVec.ofInt n (z / 2) ++ (0 : BitVec 1)).signExtend 32).toInt = z := by
  obtain ⟨k, rfl⟩ := hz
  have hp : (2 : ℤ) ^ n = 2 * 2 ^ (n - 1) := by
    rw [← pow_succ', Nat.sub_add_cancel h0]
  have hk : (2 * k) / 2 = k := by omega
  rw [hk, BitVec.toInt_signExtend_of_le (by omega)]
  have happ : ((BitVec.ofInt n k) ++ (0 : BitVec 1)).toInt = 2 ^ 1 * (BitVec.ofInt n k).toInt :=
    BitVec.toInt_append_zero
  rw [happ, BitVec.toInt_ofInt_eq_self h0 (by omega) (by omega)]
  omega

theorem decodedImm_eq {w imm : Word} (h : (instDecode w).op ≠ InstOp.sltiu)
    (hf : (instDecode w).format.imm w = some imm) : (instDecode w).immediate = imm := by
  rw [instDecode_immediate]
  cases hfmt : (instDecode w).format with
  | i =>
    rw [hfmt] at hf
    have hop : (instSelect w).2.1 ≠ InstOp.sltiu := by
      by_cases hm : w = instMagicHcf
      · subst hm
        decide
      · rwa [← instDecode_op hm]
    rw [decodedImm, if_neg hop]
    exact Option.some.inj hf
  | s | b | u | j =>
    rw [hfmt] at hf
    exact Option.some.inj hf
  | r | unimp =>
    rw [hfmt] at hf
    cases hf

/-- Each format has the immediate of RV32I, every offset in its range is decoded as
    it was encoded, and an immediate determines the bits that hold it. -/
theorem immediates_exact :
    (∀ w, instJalImm w = immJ w ∧ instBranchImm w = immB w ∧ instStoreImm w = immS w) ∧
    (∀ w, (instDecode w).op ≠ InstOp.sltiu → ∀ imm ∈ (instDecode w).format.imm w,
      (instDecode w).immediate = imm) ∧
    (∀ (rd : BitVec 5) (n : ℤ), 2 ∣ n → -2 ^ 20 ≤ n → n < 2 ^ 20 →
      (instDecode (Rv32i.jal rd (.ofInt 20 (n / 2))).encode).immediate.toInt = n) ∧
    (∀ (op : BranchOp) (rs1 rs2 : BitVec 5) (n : ℤ), 2 ∣ n → -2 ^ 12 ≤ n → n < 2 ^ 12 →
      (instDecode (Rv32i.branch op rs1 rs2 (.ofInt 12 (n / 2))).encode).immediate.toInt = n) ∧
    (∀ (op : StoreOp) (rs1 rs2 : BitVec 5) (n : ℤ), -2 ^ 11 ≤ n → n < 2 ^ 11 →
      (instDecode (Rv32i.store op rs1 rs2 (.ofInt 12 n)).encode).immediate.toInt = n) ∧
    (∀ (op : ImmOp) (rd rs1 : BitVec 5) (n : ℤ), op ≠ .sltiu → -2 ^ 11 ≤ n → n < 2 ^ 11 →
      (instDecode (Rv32i.imm op rd rs1 (.ofInt 12 n)).encode).immediate.toInt = n) ∧
    ∀ w w', (w ^^^ w') &&& ~~~(instDecode w).format.immBits = 0 →
      (instDecode w).immediate = (instDecode w').immediate → w = w' := by
  refine ⟨fun w => ⟨instJalImm_eq w, instBranchImm_eq w, instStoreImm_eq w⟩,
    fun w h imm hf => decodedImm_eq h hf, ?_, ?_, ?_, ?_, fun w w' => eq_of_immediate⟩
  · intro rd n hn hlo hhi
    have hs := congrArg (·.2.2) (instSelect_jal rd (.ofInt 20 (n / 2)))
    rw [show (instDecode _).immediate = _ from hs]
    exact toInt_signExtend_half (by omega) (by omega) hn hlo hhi
  · intro op rs1 rs2 n hn hlo hhi
    have hs := congrArg (·.2.2) (instSelect_branch op rs1 rs2 (.ofInt 12 (n / 2)))
    rw [show (instDecode _).immediate = _ from hs]
    exact toInt_signExtend_half (by omega) (by omega) hn hlo hhi
  · intro op rs1 rs2 n hlo hhi
    have hs := congrArg (·.2.2) (instSelect_store op rs1 rs2 (.ofInt 12 n))
    rw [show (instDecode _).immediate = _ from hs]
    exact toInt_signExtend_ofInt (by omega) (by omega) hlo hhi
  · intro op rd rs1 n hop hlo hhi
    have hs := congrArg (·.2.2) (instSelect_imm op rd rs1 (.ofInt 12 n))
    rw [show (instDecode _).immediate = _ from hs]
    dsimp only
    rw [if_neg hop]
    exact toInt_signExtend_ofInt (by omega) (by omega) hlo hhi

/-- `jal x1, -4` -/
theorem immediate_jal_back :
    (instDecode (Rv32i.jal 1 (.ofInt 20 (-4 / 2))).encode).immediate.toInt = -4 :=
  immediates_exact.2.2.1 1 (-4) (by decide) (by decide) (by decide)

end TomasuloCpu
