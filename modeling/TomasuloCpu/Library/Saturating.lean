import Mathlib.Algebra.Ring.Nat
import Mathlib.Data.Int.Notation

set_option autoImplicit false

/-!
# Saturating counters

A counter between zero and a maximum moves with every outcome and predicts the next
one by a threshold. It is wrong only so often after each change of the outcomes.
-/
namespace TomasuloCpu.Saturating

def move (top state : ℤ) (up : Bool) : ℤ :=
  if up then if state < top then state + 1 else state
  else if state > 0 then state - 1 else state

variable {top t : ℤ}

/-- The wrong predictions on a sequence of outcomes. -/
def misses (top t : ℤ) : ℤ → List Bool → ℕ
  | _, [] => 0
  | s, b :: bs => (if decide (s ≥ t) = b then 0 else 1) + misses top t (move top s b) bs

/-- The changes in a sequence of outcomes that comes after an outcome. -/
def flips : Bool → List Bool → ℕ
  | _, [] => 0
  | a, b :: bs => (if a = b then 0 else 1) + flips b bs

/-- The wrong predictions that are left if an outcome goes on for ever. -/
def debt (t s : ℤ) (b : Bool) : ℕ := if b then (t - s).toNat else (s - t + 1).toNat

theorem move_bounds {s : ℤ} (h : 0 ≤ s ∧ s ≤ top) (b : Bool) :
    0 ≤ move top s b ∧ move top s b ≤ top := by
  unfold move
  split_ifs <;> omega

theorem predicts_move {s : ℤ} {b : Bool} (h : decide (s ≥ t) = b) :
    decide (move top s b ≥ t) = b := by
  unfold move
  cases b
  · have hs : s < t := by simpa using h
    simp only [Bool.false_eq_true, ↓reduceIte, decide_eq_false_iff_not]
    split_ifs <;> omega
  · have hs : s ≥ t := by simpa using h
    simp only [↓reduceIte, decide_eq_true_eq]
    split_ifs <;> omega

theorem debt_move {s : ℤ} (ht : t ≤ top) (h0 : 0 < t) (h : 0 ≤ s ∧ s ≤ top) (b : Bool) :
    (if decide (s ≥ t) = b then 0 else 1) + debt t (move top s b) b ≤ debt t s b := by
  unfold debt move
  cases b <;> simp <;> split_ifs <;> omega

theorem debt_le {s : ℤ} {k : ℕ} (hk : t ≤ k ∧ top + 1 - t ≤ k) (h : 0 ≤ s ∧ s ≤ top) (b : Bool) :
    debt t s b ≤ k := by
  unfold debt
  cases b <;> simp <;> omega

/-- There are at most `k` wrong predictions for each change of the outcomes, and what
    was left before the first. -/
theorem misses_le {k : ℕ} (ht : t ≤ top) (h0 : 0 < t) (hk : t ≤ k ∧ top + 1 - t ≤ k) {s : ℤ}
    (h : 0 ≤ s ∧ s ≤ top) (a : Bool) (bs : List Bool) :
    misses top t s bs ≤ debt t s a + k * flips a bs := by
  induction bs generalizing s a with
  | nil => exact Nat.zero_le _
  | cons b bs ih =>
    have hrest := ih (move_bounds h b) b
    have hpay := debt_move ht h0 h b
    rw [misses, flips, Nat.mul_add]
    by_cases hab : a = b
    · subst hab
      rw [if_pos rfl, Nat.mul_zero]
      omega
    · have hle := debt_le hk h b
      rw [if_neg hab, Nat.mul_one]
      omega

end TomasuloCpu.Saturating
