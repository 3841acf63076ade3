import TomasuloCpu.Rv32i

set_option autoImplicit false

/-!
# The arithmetic of RV32I

What the instruction set gives for each name of `alu_op_t`, and where
`alu_execute` gives it. A shift by 32 or more is whatever the target makes of
it, so a result counts as right only when it is right on every target.
-/
namespace TomasuloCpu

inductive AluName where
  | add | sll | slt | sltu | xor | srl | or | and | sub | sra
  | beq | bne | blt | bge | bltu | bgeu
  deriving DecidableEq, Repr

namespace AluName

def op : AluName → AluOp
  | .add => AluOp.add
  | .sll => AluOp.sll
  | .slt => AluOp.slt
  | .sltu => AluOp.sltu
  | .xor => AluOp.xor
  | .srl => AluOp.srl
  | .or => AluOp.or
  | .and => AluOp.and
  | .sub => AluOp.sub
  | .sra => AluOp.sra
  | .beq => AluOp.beq
  | .bne => AluOp.bne
  | .blt => AluOp.blt
  | .bge => AluOp.bge
  | .bltu => AluOp.bltu
  | .bgeu => AluOp.bgeu

/-- The result of RV32I: shifts take the low five bits of the second operand. -/
def result (value1 value2 : Word) : AluName → Word
  | .add => value1 + value2
  | .sll => value1 <<< (value2.toNat % 32)
  | .slt | .blt => if value1.toInt < value2.toInt then 1 else 0
  | .sltu | .bltu => if value1.toNat < value2.toNat then 1 else 0
  | .xor => value1 ^^^ value2
  | .srl => value1 >>> (value2.toNat % 32)
  | .or => value1 ||| value2
  | .and => value1 &&& value2
  | .sub => value1 - value2
  | .sra => value1.sshiftRight (value2.toNat % 32)
  | .beq => if value1 = value2 then 1 else 0
  | .bne => if value1 = value2 then 0 else 1
  | .bge => if value2.toInt ≤ value1.toInt then 1 else 0
  | .bgeu => if value2.toNat ≤ value1.toNat then 1 else 0

end AluName

/-- The sign bit is clear, the bits repeat every `2 * k` places and the upper
    half of the first such period is zero. -/
def Mirrored (value : Word) (k : ℕ) : Prop :=
  value.getLsbD 31 = false ∧ (∀ j, k ≤ j → j < 2 * k → value.getLsbD j = false) ∧
    ∀ j < 32 - k, value.getLsbD j = value.getLsbD (j + 2 * k)

theorem getLsbD_sshiftRight_word (value : Word) {i : ℕ} (k : ℕ) (hi : i < 32) :
    (value.sshiftRight k).getLsbD i =
      if k + i < 32 then value.getLsbD (k + i) else value.getLsbD 31 := by
  simp only [BitVec.getLsbD_sshiftRight, BitVec.msb_eq_getLsbD_last]
  simp [hi]

/-- The bits of a negative word on which both shifts agree, from the top down. -/
theorem set_of_shifts_eq {value : Word} {k : ℕ} (hk : 0 < k) (hs : value.getLsbD 31 = true)
    (h : value <<< k = value.sshiftRight k) (n : ℕ) (j : ℕ) (hj : j + k + n = 31)
    (hr : n % (2 * k) ≤ k) : value.getLsbD j = true := by
  have hb := congrArg (fun w : Word => w.getLsbD (j + k)) h
  simp only [BitVec.getLsbD_shiftLeft, getLsbD_sshiftRight_word value k (show j + k < 32 by omega),
    show j + k < 32 by omega, decide_true, Bool.true_and, Nat.add_sub_cancel,
    show ¬j + k < k by omega, decide_false, Bool.not_false] at hb
  by_cases hn : n < 2 * k
  · rw [Nat.mod_eq_of_lt hn] at hr
    rw [hb]
    split
    · rw [show k + (j + k) = 31 by omega, hs]
    · exact hs
  · have hlt : k + (j + k) < 32 := by omega
    rw [hb, if_pos hlt]
    -- the bit two shifts up is again one of these
    have hr' : (n - 2 * k) % (2 * k) ≤ k := by
      rw [Nat.mod_eq_sub_mod (by omega)] at hr
      exact hr
    exact set_of_shifts_eq hk hs h (n - 2 * k) (k + (j + k)) (by omega) hr'
termination_by n

theorem sign_of_shifts_eq {value : Word} {k : ℕ} (hk : 0 < k) (h32 : k < 32)
    (h : value <<< k = value.sshiftRight k) : value.getLsbD 31 = false := by
  by_contra hs
  rw [Bool.not_eq_false] at hs
  have low : ∀ i < k, i + k < 32 → value.getLsbD (k + i) = false := by
    intro i hi hik
    have hb := congrArg (fun w : Word => w.getLsbD i) h
    simp only [BitVec.getLsbD_shiftLeft, hi, decide_true, Bool.not_true, Bool.and_false,
      Bool.false_and, getLsbD_sshiftRight_word value k (show i < 32 by omega)] at hb
    rw [if_pos (by omega)] at hb
    exact hb.symm
  by_cases h16 : k < 16
  · have block : ∀ k < 16, 0 < k →
        ∃ n < 32, n % (2 * k) ≤ k ∧ 31 < n + 3 * k ∧ n + 2 * k ≤ 31 := by
      decide
    obtain ⟨n, -, hr, hlo, hhi⟩ := block k h16 hk
    have hset := set_of_shifts_eq hk hs h n (31 - k - n) (by omega) hr
    have hclear := low (31 - k - n - k) (by omega) (by omega)
    rw [show k + (31 - k - n - k) = 31 - k - n by omega, hset] at hclear
    cases hclear
  · have hclear := low (31 - k) (by omega) (by omega)
    rw [show k + (31 - k) = 31 by omega, hs] at hclear
    cases hclear

/-- A left shift is the arithmetic right shift by as many places. -/
theorem shiftLeft_eq_sshiftRight_iff {value : Word} {k : ℕ} (h32 : k < 32) :
    value <<< k = value.sshiftRight k ↔ k = 0 ∨ Mirrored value k := by
  by_cases hk : k = 0
  · subst hk
    simp
  have bits : value.getLsbD 31 = false → (value <<< k = value.sshiftRight k ↔
      ∀ i < 32, (!decide (i < k) && value.getLsbD (i - k)) = value.getLsbD (k + i)) := by
    intro hs
    constructor
    · intro h i hi
      have hb := congrArg (fun w : Word => w.getLsbD i) h
      simp only [BitVec.getLsbD_shiftLeft, hi, decide_true, Bool.true_and,
        getLsbD_sshiftRight_word value k hi] at hb
      rw [hb]
      split
      · rfl
      · rw [hs, BitVec.getLsbD_of_ge _ _ (by omega)]
    · intro h
      refine BitVec.eq_of_getLsbD_eq fun i hi => ?_
      rw [getLsbD_sshiftRight_word value k hi, BitVec.getLsbD_shiftLeft]
      simp only [hi, decide_true, Bool.true_and, h i hi]
      split
      · rfl
      · rw [hs, BitVec.getLsbD_of_ge _ _ (by omega)]
  simp only [hk, false_or]
  constructor
  · intro h
    have hs := sign_of_shifts_eq (Nat.pos_of_ne_zero hk) h32 h
    have hb := (bits hs).1 h
    refine ⟨hs, fun j hkj hj => ?_, fun j hj => ?_⟩
    · by_cases hj32 : j < 32
      · have := hb (j - k) (by omega)
        rw [show k + (j - k) = j by omega] at this
        rw [← this]
        simp
        omega
      · exact BitVec.getLsbD_of_ge _ _ (by omega)
    · have := hb (j + k) (by omega)
      rw [show k + (j + k) = j + 2 * k by omega, Nat.add_sub_cancel] at this
      rw [← this]
      simp
  · intro ⟨hs, hz, hp⟩
    refine (bits hs).2 fun i hi => ?_
    by_cases hik : i < k
    · rw [hz (k + i) (by omega) (by omega)]
      simp [hik]
    · have := hp (i - k) (by omega)
      rw [this, show i - k + 2 * k = k + i by omega]
      simp [hik]

theorem boolWord_eq (b : Bool) : boolWord b = if b = true then 1 else 0 := rfl

theorem signedLt_eq (value1 value2 : Word) :
    signedLt value1 value2 = if value1.toInt < value2.toInt then 1 else 0 := by
  simp [signedLt, boolWord, BitVec.slt]

/-- The operands on which `alu_execute` follows RV32I. -/
def AluName.Exact (value1 value2 : Word) : AluName → Prop
  | .sll | .srl => value2.toNat < 32
  | .sra => value2.toNat < 32 ∧ (value2 = 0 ∨ Mirrored value1 value2.toNat)
  | _ => True

theorem aluExecute_eq [WideShift] (value1 value2 : Word) (a : AluName) :
    aluExecute a.op value1 value2 = some (match a with
      | .sll => shiftLeft value1 value2
      | .srl => shiftRight value1 value2
      | .sra => signedRshift value1 value2
      | a => a.result value1 value2) := by
  cases a with
  | slt | blt => exact congrArg some (signedLt_eq value1 value2)
  | sltu | bltu =>
    refine congrArg some ?_
    simp [boolWord_eq, BitVec.ult, AluName.result]
  | beq | bne =>
    refine congrArg some ?_
    by_cases h : value1 = value2 <;> simp [boolWord_eq, AluName.result, h]
  | bge =>
    refine congrArg some ?_
    by_cases h : value2.toInt ≤ value1.toInt
    · simp [signedLt_eq, boolWord_eq, AluName.result, h, Int.not_lt.2 h]
    · simp [signedLt_eq, boolWord_eq, AluName.result, h, Int.not_le.1 h]
  | bgeu =>
    refine congrArg some ?_
    simp [boolWord_eq, BitVec.ule, AluName.result]
  | _ => rfl

/-- A shift that C may leave undefined is right on every target only in bounds. -/
theorem forall_target_iff {k : ℕ} {x y : Word} {f : WideShift → Word}
    (any : ∀ z, ∃ target, f target = z) :
    (∀ target, (if k < 32 then x else f target) = y) ↔ k < 32 ∧ x = y := by
  by_cases hk : k < 32
  · simp only [hk, ↓reduceIte, true_and]
    exact ⟨fun h => h ⟨fun a _ => a, fun a _ => a, fun a _ => a⟩, fun h _ => h⟩
  · simp only [hk, ↓reduceIte, false_and, iff_false]
    intro h
    obtain ⟨target, ht⟩ := any (y + 1)
    rw [h target] at ht
    bv_omega

theorem alu_meets_isa (a : AluName) (value1 value2 : Word) :
    (∀ target : WideShift, @aluExecute target a.op value1 value2 =
        some (a.result value1 value2)) ↔ a.Exact value1 value2 := by
  simp only [aluExecute_eq, Option.some.injEq]
  cases a with
  | sll =>
    refine (forall_target_iff fun z => ⟨⟨fun _ _ => z, fun a _ => a, fun a _ => a⟩, rfl⟩).trans ?_
    refine and_iff_left_of_imp fun hk => ?_
    rw [AluName.result, Nat.mod_eq_of_lt hk]
  | srl =>
    refine (forall_target_iff fun z => ⟨⟨fun a _ => a, fun _ _ => z, fun a _ => a⟩, rfl⟩).trans ?_
    refine and_iff_left_of_imp fun hk => ?_
    rw [AluName.result, Nat.mod_eq_of_lt hk]
  | sra =>
    refine (forall_target_iff fun z => ⟨⟨fun a _ => a, fun a _ => a, fun _ _ => z⟩, rfl⟩).trans ?_
    refine and_congr_right fun hk => ?_
    have hzero : value2 = 0 ↔ value2.toNat = 0 :=
      ⟨fun h => by simp [h], fun h => BitVec.eq_of_toNat_eq (by simpa using h)⟩
    rw [AluName.result, Nat.mod_eq_of_lt hk, hzero]
    exact shiftLeft_eq_sshiftRight_iff hk
  | _ => simp [AluName.Exact]

/-- The smallest integer, shifted by one place: to the left on every target. -/
theorem sra_shifts_left :
    (fun target => @aluExecute target AluName.sra.op 0x80000000 1) = (fun _ => some 0) ∧
      AluName.sra.result 0x80000000 1 = 0xc0000000 :=
  ⟨rfl, by decide⟩

end TomasuloCpu
