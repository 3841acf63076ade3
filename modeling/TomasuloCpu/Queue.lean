import TomasuloCpu.Library.Ring
import TomasuloCpu.State

set_option autoImplicit false

/-!
# Ring queues

`queue.c`. A queue is seen through the latched contents of its registers; the
operations return the writes they make and the slot whose register they return.
-/
namespace TomasuloCpu

variable {α : Type} (capacity : ℤ) (q : QueueRegs α)

def queueTick : List (QueueWrite α) :=
  if q.clear then [⟨.clear, false⟩, ⟨.head, (0 : ℤ)⟩, ⟨.tail, (0 : ℤ)⟩] else []

def queueTrunc (id : ℤ) : ℤ := (if id < 0 then id + capacity else id) % capacity

def queueLength : ℤ := (q.tail + capacity - q.head) % capacity

def queueEmpty : Bool := q.head = q.tail

def queueFull : Bool := q.head = queueTrunc capacity (q.tail + 1)

def queuePush : Option (List (QueueWrite α) × ℤ) :=
  let next := queueTrunc capacity (q.tail + 1)
  if q.head = next then none else some ([⟨.tail, next⟩], q.tail)

def queuePop : Option (List (QueueWrite α) × ℤ) :=
  if q.head = q.tail then none
  else some ([⟨.head, queueTrunc capacity (q.head + 1)⟩], q.head)

def queueFirst : Option ℤ := if q.head = q.tail then none else some (q.head)

def queueClear : List (QueueWrite α) := [⟨.clear, true⟩]

def queueVisit (i : ℤ) : Option ℤ :=
  if q.head = q.tail then none
  else
    let id := queueTrunc capacity (i + q.head)
    if id = q.tail then none else some id

def queueForeachFrom : ℕ → ℤ → List ℤ
  | 0, _ => []
  | fuel + 1, i =>
    match queueVisit capacity q i with
    | none => []
    | some id => id :: queueForeachFrom fuel (i + 1)

/-- The slots a `queue_foreach` loop visits; a queue never holds more than its
    capacity, which bounds the loop. -/
def queueForeach : List ℤ := queueForeachFrom capacity q capacity.toNat 0

structure QueueOk : Prop where
  head : 0 ≤ q.head ∧ q.head < capacity
  tail : 0 ≤ q.tail ∧ q.tail < capacity

variable {capacity q}

theorem queueTrunc_of_nonneg {id : ℤ} (h : 0 ≤ id) : queueTrunc capacity id = id % capacity := by
  simp [queueTrunc, Int.not_lt.2 h]

theorem queuePush_of_not_full (h : queueFull capacity q = false) :
    queuePush capacity q = some ([⟨.tail, queueTrunc capacity (q.tail + 1)⟩], q.tail) := by
  simp only [queueFull, decide_eq_false_iff_not] at h
  simp [queuePush, h]

theorem queuePush_of_full (h : queueFull capacity q = true) : queuePush capacity q = none := by
  simp only [queueFull, decide_eq_true_eq] at h
  simp [queuePush, h]

theorem queuePop_of_not_empty (h : queueEmpty q = false) :
    queuePop capacity q = some ([⟨.head, queueTrunc capacity (q.head + 1)⟩], q.head) := by
  simp only [queueEmpty, decide_eq_false_iff_not] at h
  simp [queuePop, h]

theorem queuePop_of_empty (h : queueEmpty q = true) : queuePop capacity q = none := by
  simp only [queueEmpty, decide_eq_true_eq] at h
  simp [queuePop, h]

namespace QueueOk
variable (ok : QueueOk capacity q)
include ok

theorem queueForeachFrom_eq (fuel i : ℕ)
    (hi : i ≤ Ring.length capacity (q.head) (q.tail))
    (hf : Ring.length capacity (q.head) (q.tail) < fuel + i) :
    queueForeachFrom capacity q fuel i =
      Ring.slots capacity ((q.head + i) % capacity)
        (Ring.length capacity (q.head) (q.tail) - i) := by
  have hc : 0 < capacity := Int.lt_of_le_of_lt ok.head.1 ok.head.2
  have ht : (q.head + Ring.length capacity q.head q.tail) % capacity = q.tail :=
    Ring.tail_eq ok.tail
  have hz := Ring.length_eq_zero_iff ok.head ok.tail
  induction fuel generalizing i with
  | zero => omega
  | succ fuel ih =>
    have htr : queueTrunc capacity (i + q.head) = (q.head + i) % capacity := by
      rw [queueTrunc_of_nonneg (by have := ok.head.1; omega), Int.add_comm]
    by_cases he : q.head = q.tail
    · have h0 := hz.2 he
      rw [he] at h0
      simp [queueForeachFrom, queueVisit, he, h0]
    by_cases hl : i = Ring.length capacity (q.head) (q.tail)
    · subst hl
      simp [queueForeachFrom, queueVisit, he, htr, ht]
    · have hlt : i < Ring.length capacity (q.head) (q.tail) := by omega
      have hne : (q.head + i) % capacity ≠ q.tail := by
        intro hm
        exact Ring.tail_notMem ok.head ok.tail
          ((Ring.mem_slots ok.head.1 ok.head.2).2 ⟨i, hlt, hm.symm⟩)
      have hs : Ring.length capacity (q.head) (q.tail) - i =
          Ring.length capacity (q.head) (q.tail) - (i + 1) + 1 := by omega
      simp only [queueForeachFrom, queueVisit, htr, he, hne, ↓reduceIte]
      rw [hs, Ring.slots_succ, Int.emod_add_emod]
      congr 1
      have := ih (i + 1) (by omega) (by omega)
      rw [show (i : ℤ) + 1 = ((i + 1 : ℕ) : ℤ) by push_cast; rfl, this]
      congr 2
      push_cast
      omega

theorem queueForeach_eq :
    queueForeach capacity q =
      Ring.slots capacity (q.head) (Ring.length capacity (q.head) (q.tail)) := by
  have hl := Ring.length_lt ok.head ok.tail
  have h := ok.queueForeachFrom_eq capacity.toNat 0 (by omega) (by omega)
  rw [queueForeach]
  simpa [Int.emod_eq_of_lt ok.head.1 ok.head.2] using h

theorem queueForeach_nodup : (queueForeach capacity q).Nodup := by
  rw [ok.queueForeach_eq]
  exact Ring.nodup_slots ok.head.1 ok.head.2 (Int.le_of_lt (Ring.length_lt ok.head ok.tail))

theorem queueForeach_bounds {x : ℤ} (hx : x ∈ queueForeach capacity q) :
    0 ≤ x ∧ x < capacity := by
  rw [ok.queueForeach_eq] at hx
  exact Ring.slots_bounds ok.head.1 ok.head.2 hx

theorem tail_notMem : q.tail ∉ queueForeach capacity q := by
  rw [ok.queueForeach_eq]
  exact Ring.tail_notMem ok.head ok.tail

theorem queueForeach_eq_nil_iff : queueForeach capacity q = [] ↔ q.head = q.tail := by
  rw [ok.queueForeach_eq, ← Ring.length_eq_zero_iff ok.head ok.tail]
  constructor
  · intro h
    simpa using congrArg List.length h
  · intro h
    rw [h, Ring.slots_zero]

theorem head?_queueForeach (h : q.head ≠ q.tail) :
    (queueForeach capacity q).head? = some (q.head) := by
  rw [ok.queueForeach_eq, Ring.slots_pop ok.head ok.tail h, List.head?_cons]

end QueueOk

variable (capacity) in
structure QueueStep (q q' : QueueRegs α) (pop push : Bool) : Prop where
  head : q'.head = if pop then queueTrunc capacity (q.head + 1) else q.head
  tail : q'.tail = if push then queueTrunc capacity (q.tail + 1) else q.tail
  nonempty : pop = true → q.head ≠ q.tail
  room : push = true → queueFull capacity q = false

namespace QueueStep
variable {q' : QueueRegs α} {pop push : Bool}

theorem ok (h : QueueStep capacity q q' pop push) (ok : QueueOk capacity q) :
    QueueOk capacity q' := by
  have hc : 0 < capacity := Int.lt_of_le_of_lt ok.head.1 ok.head.2
  constructor
  · rw [h.head]
    split
    · rw [queueTrunc_of_nonneg (by have := ok.head.1; omega)]
      exact ⟨Int.emod_nonneg _ (by omega), Int.emod_lt_of_pos _ hc⟩
    · exact ok.head
  · rw [h.tail]
    split
    · rw [queueTrunc_of_nonneg (by have := ok.tail.1; omega)]
      exact ⟨Int.emod_nonneg _ (by omega), Int.emod_lt_of_pos _ hc⟩
    · exact ok.tail

/-- A queue loses its oldest slot to a pop and gains its tail by a push. -/
theorem queueForeach_eq (h : QueueStep capacity q q' pop push)
    (ok : QueueOk capacity q) :
    queueForeach capacity q' =
      (if pop then (queueForeach capacity q).tail else queueForeach capacity q) ++
        if push then [q.tail] else [] := by
  have hb : QueueOk capacity q' := h.ok ok
  have hc : 0 < capacity := Int.lt_of_le_of_lt ok.head.1 ok.head.2
  have h0 := ok.head.1
  have h1 := ok.tail.1
  have hhead := h.head
  have htail := h.tail
  rw [queueTrunc_of_nonneg (by omega)] at hhead htail
  rw [hb.queueForeach_eq, ok.queueForeach_eq]
  have hpush : push = true → (q.tail + 1) % capacity ≠ q.head := by
    intro hp he
    have := h.room hp
    rw [queueFull, queueTrunc_of_nonneg (by omega), he] at this
    simp at this
  cases pop with
  | false =>
    simp only [Bool.false_eq_true, ↓reduceIte] at hhead ⊢
    rw [hhead]
    cases push with
    | false => simp_all
    | true =>
      simp only [↓reduceIte] at htail ⊢
      rw [htail, Ring.slots_push_tail ok.head ok.tail (hpush rfl)]
  | true =>
    have hne := h.nonempty rfl
    have hh : 0 ≤ (q.head + 1) % capacity ∧ (q.head + 1) % capacity < capacity :=
      ⟨Int.emod_nonneg _ (by omega), Int.emod_lt_of_pos _ hc⟩
    simp only [↓reduceIte] at hhead ⊢
    rw [hhead, Ring.slots_pop ok.head ok.tail hne, List.tail_cons]
    cases push with
    | false => simp_all
    | true =>
      simp only [↓reduceIte] at htail ⊢
      rw [htail, Ring.slots_push_tail hh ok.tail]
      -- after the pop the slot after the tail is not the new head either
      intro he
      have hl := (Ring.next_eq_head_iff hh ok.tail).1 he
      have hp := congrArg List.length (Ring.slots_pop ok.head ok.tail hne)
      have hlt := Ring.length_lt ok.head ok.tail
      simp only [Ring.length_slots, List.length_cons] at hp
      omega

end QueueStep

end TomasuloCpu
