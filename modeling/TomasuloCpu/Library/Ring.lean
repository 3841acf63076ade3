import Mathlib.Data.Int.Notation
import Mathlib.Data.List.Nodup

set_option autoImplicit false

/-!
# Ring buffers

The slots that a ring buffer of some capacity occupies, oldest first: `k` slots
from `head` on, wrapping around at the capacity.
-/
namespace TomasuloCpu.Ring

def slots (capacity : ℤ) : ℤ → ℕ → List ℤ
  | _, 0 => []
  | head, k + 1 => head :: slots capacity ((head + 1) % capacity) k

/-- The number of occupied slots of a ring buffer, one of which stays free. -/
def length (capacity head tail : ℤ) : ℕ := ((tail - head) % capacity).toNat

variable {capacity head tail : ℤ}

@[simp] theorem slots_zero : slots capacity head 0 = [] := rfl

theorem slots_succ (k : ℕ) :
    slots capacity head (k + 1) = head :: slots capacity ((head + 1) % capacity) k := rfl

@[simp] theorem length_slots (k : ℕ) : (slots capacity head k).length = k := by
  induction k generalizing head with
  | zero => rfl
  | succ k ih => simp [slots, ih]

theorem mem_slots {k : ℕ} (h0 : 0 ≤ head) (h1 : head < capacity) {x : ℤ} :
    x ∈ slots capacity head k ↔ ∃ i : ℕ, i < k ∧ x = (head + i) % capacity := by
  induction k generalizing head with
  | zero => simp
  | succ k ih =>
    have hc : 0 < capacity := by omega
    rw [slots_succ, List.mem_cons,
      ih (Int.emod_nonneg _ (by omega)) (Int.emod_lt_of_pos _ hc)]
    constructor
    · rintro (rfl | ⟨i, hi, rfl⟩)
      · exact ⟨0, by omega, by simp [Int.emod_eq_of_lt h0 h1]⟩
      · refine ⟨i + 1, by omega, ?_⟩
        rw [Int.emod_add_emod]
        congr 1
        push_cast
        omega
    · rintro ⟨i, hi, rfl⟩
      cases i with
      | zero => exact .inl (by simp [Int.emod_eq_of_lt h0 h1])
      | succ i =>
        refine .inr ⟨i, by omega, ?_⟩
        rw [Int.emod_add_emod]
        congr 1
        push_cast
        omega

theorem slots_bounds {k : ℕ} (h0 : 0 ≤ head) (h1 : head < capacity) {x : ℤ}
    (hx : x ∈ slots capacity head k) : 0 ≤ x ∧ x < capacity := by
  obtain ⟨i, -, rfl⟩ := (mem_slots h0 h1).1 hx
  exact ⟨Int.emod_nonneg _ (by omega), Int.emod_lt_of_pos _ (by omega)⟩

theorem head_notMem_slots {k : ℕ} (h0 : 0 ≤ head) (h1 : head < capacity)
    (hk : (k : ℤ) < capacity) : head ∉ slots capacity ((head + 1) % capacity) k := by
  intro hm
  rw [mem_slots (Int.emod_nonneg _ (by omega)) (Int.emod_lt_of_pos _ (by omega))] at hm
  obtain ⟨i, hi, he⟩ := hm
  rw [Int.emod_add_emod] at he
  have hd : capacity ∣ (head + 1 + i) - head := by
    apply Int.dvd_of_emod_eq_zero
    rw [Int.sub_emod, ← he]
    simp [Int.emod_eq_of_lt h0 h1]
  have := Int.le_of_dvd (by omega) hd
  omega

theorem nodup_slots {k : ℕ} (h0 : 0 ≤ head) (h1 : head < capacity) (hk : (k : ℤ) ≤ capacity) :
    (slots capacity head k).Nodup := by
  induction k generalizing head with
  | zero => exact List.nodup_nil
  | succ k ih =>
    refine List.nodup_cons.2 ⟨head_notMem_slots h0 h1 (by omega), ?_⟩
    exact ih (Int.emod_nonneg _ (by omega)) (Int.emod_lt_of_pos _ (by omega)) (by omega)

theorem slots_push (k : ℕ) (h0 : 0 ≤ head) (h1 : head < capacity) :
    slots capacity head (k + 1) = slots capacity head k ++ [(head + k) % capacity] := by
  induction k generalizing head with
  | zero => simp [slots, Int.emod_eq_of_lt h0 h1]
  | succ k ih =>
    rw [slots_succ, ih (Int.emod_nonneg _ (by omega)) (Int.emod_lt_of_pos _ (by omega)),
      slots_succ, List.cons_append, Int.emod_add_emod]
    congr 4
    push_cast
    omega

section
variable (hh : 0 ≤ head ∧ head < capacity) (ht : 0 ≤ tail ∧ tail < capacity)
include hh ht

theorem length_lt : (length capacity head tail : ℤ) < capacity := by
  have := Int.emod_nonneg (tail - head) (show capacity ≠ 0 by omega)
  have := Int.emod_lt_of_pos (tail - head) (show 0 < capacity by omega)
  simp only [length]
  omega

omit hh in
theorem tail_eq : (head + length capacity head tail) % capacity = tail := by
  have h := Int.emod_nonneg (tail - head) (show capacity ≠ 0 by omega)
  simp only [length, Int.toNat_of_nonneg h, Int.add_emod_emod]
  rw [show head + (tail - head) = tail by omega]
  exact Int.emod_eq_of_lt ht.1 ht.2

theorem length_eq : (length capacity head tail : ℤ) =
    if head ≤ tail then tail - head else tail - head + capacity := by
  have h := Int.emod_nonneg (tail - head) (show capacity ≠ 0 by omega)
  simp only [length, Int.toNat_of_nonneg h]
  split
  · exact Int.emod_eq_of_lt (by omega) (by omega)
  · rw [← Int.add_emod_right]
    exact Int.emod_eq_of_lt (by omega) (by omega)

theorem length_eq_zero_iff : length capacity head tail = 0 ↔ head = tail := by
  have h := length_eq hh ht
  split at h <;> omega

/-- The slot after the tail is the head when only the free slot is left. -/
theorem next_eq_head_iff :
    (tail + 1) % capacity = head ↔ (length capacity head tail : ℤ) + 1 = capacity := by
  have h := length_eq hh ht
  rcases (show (tail + 1) < capacity ∨ capacity ≤ (tail + 1) by omega) with hlt | hge
  · rw [Int.emod_eq_of_lt (by omega) hlt]
    split at h <;> omega
  · have he : tail + 1 = capacity := by omega
    rw [he, Int.emod_self]
    split at h <;> omega

theorem slots_pop (hne : head ≠ tail) :
    slots capacity head (length capacity head tail) =
      head :: slots capacity ((head + 1) % capacity)
        (length capacity ((head + 1) % capacity) tail) := by
  have h := length_eq hh ht
  have hb : 0 ≤ (head + 1) % capacity ∧ (head + 1) % capacity < capacity :=
    ⟨Int.emod_nonneg _ (by omega), Int.emod_lt_of_pos _ (by omega)⟩
  have h' := length_eq hb ht
  have hs : length capacity head tail =
      length capacity ((head + 1) % capacity) tail + 1 := by
    rcases (show (head + 1) < capacity ∨ capacity ≤ (head + 1) by omega) with hlt | hge
    · rw [Int.emod_eq_of_lt (by omega) hlt] at h' ⊢
      split at h <;> split at h' <;> omega
    · have he : head + 1 = capacity := by omega
      rw [he, Int.emod_self] at h' ⊢
      split at h <;> split at h' <;> omega
  rw [hs, slots_succ]

theorem slots_push_tail (hne : (tail + 1) % capacity ≠ head) :
    slots capacity head (length capacity head ((tail + 1) % capacity)) =
      slots capacity head (length capacity head tail) ++ [tail] := by
  have h := length_eq hh ht
  have hb : 0 ≤ (tail + 1) % capacity ∧ (tail + 1) % capacity < capacity :=
    ⟨Int.emod_nonneg _ (by omega), Int.emod_lt_of_pos _ (by omega)⟩
  have h' := length_eq hh hb
  have hs : length capacity head ((tail + 1) % capacity) =
      length capacity head tail + 1 := by
    rcases (show (tail + 1) < capacity ∨ capacity ≤ (tail + 1) by omega) with hlt | hge
    · rw [Int.emod_eq_of_lt (by omega) hlt] at h' hne ⊢
      split at h <;> split at h' <;> omega
    · have he : tail + 1 = capacity := by omega
      rw [he, Int.emod_self] at h' hne ⊢
      split at h <;> split at h' <;> omega
  rw [hs, slots_push _ hh.1 hh.2, tail_eq ht]

theorem tail_notMem : tail ∉ slots capacity head (length capacity head tail) := by
  intro hm
  obtain ⟨i, hi, he⟩ := (mem_slots hh.1 hh.2).1 hm
  have hl := length_lt hh ht
  have h := length_eq hh ht
  rcases (show (head + i) < capacity ∨ capacity ≤ (head + i) by omega) with hlt | hge
  · rw [Int.emod_eq_of_lt (by omega) hlt] at he
    split at h <;> omega
  · rw [← Int.sub_emod_right, Int.emod_eq_of_lt (by omega) (by omega)] at he
    split at h <;> omega

end

end TomasuloCpu.Ring
