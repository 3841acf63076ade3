import Mathlib.Algebra.Ring.Nat
import TomasuloCpu.LoadOrder

set_option autoImplicit false

/-!
# The overlap test of the reservation stations

`_rsu_overlap` compares the end of the lower range with the start of the upper
one.
-/
namespace TomasuloCpu

def ShareByte (addr1 : Addr) (n1 : ℕ) (addr2 : Addr) (n2 : ℕ) : Prop :=
  ∃ k, (addr1.toNat ≤ k ∧ k < addr1.toNat + n1) ∧ addr2.toNat ≤ k ∧ k < addr2.toNat + n2

/-- The range of the lower address ends at the end of the address space. -/
def LowerEndsLast (addr1 : Addr) (n1 : ℕ) (addr2 : Addr) (n2 : ℕ) : Prop :=
  (addr1 < addr2 ∧ addr1.toNat + n1 = 2 ^ 32) ∨ (addr2 < addr1 ∧ addr2.toNat + n2 = 2 ^ 32)

variable {addr1 addr2 : Addr} {size1 size2 : LsSize} {n1 n2 : ℕ}

theorem shareByte_iff (h1 : 0 < n1) (h2 : 0 < n2) : ShareByte addr1 n1 addr2 n2 ↔
    addr1.toNat < addr2.toNat + n2 ∧ addr2.toNat < addr1.toNat + n1 := by
  constructor
  · rintro ⟨k, hk1, hk2⟩
    omega
  · intro h
    refine ⟨max addr1.toNat addr2.toNat, ?_⟩
    omega

theorem lsSize_pos (h : lsSize size1 = some n1) : 0 < n1 := by
  unfold lsSize at h
  split_ifs at h <;> cases h <;> omega

theorem rsuOverlap_comm (addr1 addr2 : Addr) (size1 size2 : LsSize) :
    rsuOverlap addr1 size1 addr2 size2 = rsuOverlap addr2 size2 addr1 size1 := by
  unfold rsuOverlap
  by_cases he : addr1 = addr2
  · rw [if_pos he, if_pos he.symm]
  · rw [if_neg he, if_neg (Ne.symm he)]
    by_cases hlt : addr1 > addr2
    · have hle : ¬addr2 > addr1 := by bv_omega
      rw [if_pos hlt, if_neg hle]
    · have hgt : addr2 > addr1 := by bv_omega
      rw [if_neg hlt, if_pos hgt]

theorem rsuOverlap_of_lt (h1 : lsSize size1 = some n1) (hlt : addr1 < addr2) :
    rsuOverlap addr1 size1 addr2 size2 = some (decide (addr1 + BitVec.ofNat 32 n1 ≤ addr2)) := by
  have hne : addr1 ≠ addr2 := by bv_omega
  have hle : ¬addr1 > addr2 := by bv_omega
  rw [rsuOverlap, if_neg hne, if_neg hle, h1, Option.map_some]

/-- For different addresses the answer is the wrong one unless the end of the lower
    range wraps to zero. -/
theorem rsuOverlap_exact_of_lt (h1 : lsSize size1 = some n1) (h2 : lsSize size2 = some n2)
    (hw1 : addr1.toNat + n1 ≤ 2 ^ 32) (hlt : addr1 < addr2) :
    (rsuOverlap addr1 size1 addr2 size2 = some true ↔ ShareByte addr1 n1 addr2 n2) ↔
      addr1.toNat + n1 = 2 ^ 32 := by
  have hp2 := lsSize_pos h2
  have h4 := lsSize_le h1
  have hlt' : addr1.toNat < addr2.toNat := hlt
  have hmax := addr2.isLt
  rw [rsuOverlap_of_lt h1 hlt, shareByte_iff (lsSize_pos h1) hp2, Option.some.injEq,
    decide_eq_true_eq, BitVec.le_def, BitVec.toNat_add, BitVec.toNat_ofNat]
  by_cases hend : addr1.toNat + n1 = 2 ^ 32
  · have hn1 : n1 % 2 ^ 32 = n1 := Nat.mod_eq_of_lt (by omega)
    rw [hn1, hend, Nat.mod_self]
    omega
  · have hn1 : n1 % 2 ^ 32 = n1 := Nat.mod_eq_of_lt (by omega)
    rw [hn1, Nat.mod_eq_of_lt (by omega)]
    omega

theorem shareByte_comm : ShareByte addr1 n1 addr2 n2 ↔ ShareByte addr2 n2 addr1 n1 := by
  constructor
  · rintro ⟨k, h1, h2⟩
    exact ⟨k, h2, h1⟩
  · rintro ⟨k, h1, h2⟩
    exact ⟨k, h2, h1⟩

/-- The overlap test is exact just for equal addresses, and where the lower range
    ends at the last address. -/
theorem rsuOverlap_exact_iff (h1 : lsSize size1 = some n1) (h2 : lsSize size2 = some n2)
    (hw1 : addr1.toNat + n1 ≤ 2 ^ 32) (hw2 : addr2.toNat + n2 ≤ 2 ^ 32) :
    (rsuOverlap addr1 size1 addr2 size2 = some true ↔ ShareByte addr1 n1 addr2 n2) ↔
      addr1 = addr2 ∨ LowerEndsLast addr1 n1 addr2 n2 := by
  have horder : addr1 < addr2 ∨ addr1 = addr2 ∨ addr2 < addr1 := by bv_omega
  rcases horder with hlt | he | hgt
  · have hne : addr1 ≠ addr2 := by bv_omega
    have hle : ¬addr2 < addr1 := by bv_omega
    rw [rsuOverlap_exact_of_lt h1 h2 hw1 hlt]
    simp only [LowerEndsLast, hlt, hne, hle, true_and, false_and, or_false, false_or]
  · subst he
    have hp1 := lsSize_pos h1
    have hp2 := lsSize_pos h2
    have ht : rsuOverlap addr1 size1 addr1 size2 = some true := if_pos rfl
    refine iff_of_true (iff_of_true ht ?_) (.inl rfl)
    rw [shareByte_iff hp1 hp2]
    omega
  · have hne : addr1 ≠ addr2 := by bv_omega
    have hle : ¬addr1 < addr2 := by bv_omega
    rw [rsuOverlap_comm, shareByte_comm, rsuOverlap_exact_of_lt h2 h1 hw2 hgt]
    simp only [LowerEndsLast, hgt, hne, hle, true_and, false_and, false_or]

/-- Two words that share no byte, and two that share two. -/
theorem rsuOverlap_inverted :
    ¬((rsuOverlap 0 LsSize.word 8 LsSize.word = some true) ↔ ShareByte 0 4 8 4) ∧
      ¬((rsuOverlap 0 LsSize.word 2 LsSize.word = some true) ↔ ShareByte 0 4 2 4) := by
  have hshare (addr : Addr) : ShareByte 0 4 addr 4 ↔ addr.toNat < 4 := by
    rw [shareByte_iff (by omega) (by omega), show (0 : Addr).toNat = 0 from rfl]
    omega
  rw [hshare, hshare]
  decide

theorem rsuOverlap_exact_same :
    (rsuOverlap 8 LsSize.byte 8 LsSize.word = some true ↔ ShareByte 8 1 8 4) ↔
      (8 : Addr) = 8 ∨ LowerEndsLast 8 1 8 4 :=
  rsuOverlap_exact_iff (by decide) (by decide) (by decide) (by decide)

end TomasuloCpu
