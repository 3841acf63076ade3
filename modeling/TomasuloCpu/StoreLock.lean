import TomasuloCpu.MemorySlots

set_option autoImplicit false

/-!
# The lock of the load-store queue

A store takes the lock of the queue and its completion raises a signal that
releases it. Nothing lowers the signal again, so the lock of a later store is
released in the tick after its issue.
-/
namespace TomasuloCpu
open Clocked

/-- While a store is in a slot the load-store queue pops and issues nothing. -/
def Latched.Exclusive (s : Latched) : Prop :=
  (∃ i ∈ memSlots, s.rr (.storeBusy i) = true) → s.lsqPop = none ∧ s.lsqIssue = none

/-- The signal tells that some store has completed; until then the lock is held
    while a store is in flight. -/
structure LockOk (s : Latched) (q : Plain) : Prop where
  signal : s.rm.lockSignal = true ↔ q.performed ≠ []
  held : q.performed = [] → q.inFlight ≠ [] → s.rr .lockStall = true

variable [WideShift] {s s' : Latched} {q p q' : Plain}

omit [WideShift] in
theorem lsqPop_eq_none_iff : s.lsqPop = none ↔
    s.rm.lsqClear = true ∨ s.rr .lockStall = true ∨ queueEmpty s.rm.lsq = true := by
  rw [Latched.lsqPop, ← or_assoc, ← Bool.or_eq_true, ← Bool.or_eq_true]
  split_ifs with h
  · exact iff_of_true rfl h
  · exact iff_of_false (by simp) h

omit [WideShift] in
theorem lsqIssue_of_pop (h : s.lsqPop = none) : s.lsqIssue = none := by
  simp [Latched.lsqIssue, h]

namespace LockOk
variable (ok : LockOk s q) (st : Step s q p s' q')
include ok st

theorem step_signal : s'.rm.lockSignal = true ↔ q'.performed ≠ [] := by
  have hperf : q'.performed ≠ [] ↔ q.performed ≠ [] ∨ s.performs ≠ [] := by
    rw [st.performed]
    simp only [ne_eq, List.append_eq_nil_iff, List.map_eq_nil_iff]
    tauto
  have hdone : s.performs ≠ [] ↔
      s.rm.memClear = false ∧ ∃ i ∈ memSlots, memStoreDone s i = true := by
    simp only [Latched.performs]
    cases s.rm.memClear
    · simp [List.filter_eq_nil_iff]
    · simp
  rw [hperf, hdone, ← ok.signal]
  rcases st.cases .lockSignal with ⟨v, ⟨hc, hd, rfl⟩, hv⟩ | ⟨hn, hk⟩
  · exact iff_of_true hv (.inr ⟨hc, hd⟩)
  · have hk : s'.rm.lockSignal = s.rm.lockSignal := hk
    rw [hk]
    exact ⟨.inl, fun h => h.resolve_right fun hs => hn true ⟨hs.1, hs.2, rfl⟩⟩

theorem step : LockOk s' q' where
  signal := ok.step_signal st
  held := by
    intro hp hF
    rw [st.performed, List.append_eq_nil_iff] at hp
    have hF' : q'.inFlight = q.inFlight ++ s.issued.toList := by
      rw [Plain.inFlight, Plain.inFlight, st.performed, st.issued, hp.1, hp.2]
      rfl
    rw [st.raised]
    cases hi : s.issued with
    | some i =>
      refine .inr ?_
      rw [Latched.issued] at hi
      split at hi
      · assumption
      · cases hi
    | none =>
      rw [hF', hi, Option.toList_none, List.append_nil] at hF
      refine .inl ⟨ok.held hp.1 hF, ?_⟩
      by_contra hs
      exact (ok.signal.1 (by simpa using hs)) hp.1

end LockOk

/-- In the tick from `c₀` to `c` no store had completed yet, or the store in a slot is
    a new one, or the queue has nothing to pop. -/
def LockHeld (c₀ c : Cpu) : Prop :=
  c₀.plain.performed = [] ∨
  (∃ i ∈ memSlots, (latch c₀).rr (.storeBusy i) = false ∧ (latch c).rr (.storeBusy i) = true) ∨
  (latch c).rm.lsqClear = true ∨ queueEmpty (latch c).rm.lsq = true

theorem LockOk.lockStall_iff (ok : LockOk s q) (stores : StoresOk s q) (st : Step s q p s' q')
    (hb : ∃ i ∈ memSlots, s'.rr (.storeBusy i) = true) : s'.rr .lockStall = true ↔
      q.performed = [] ∨
        ∃ i ∈ memSlots, s.rr (.storeBusy i) = false ∧ s'.rr (.storeBusy i) = true := by
  have new : s.issuesStore.isSome = true ↔
      ∃ i ∈ memSlots, s.rr (.storeBusy i) = false ∧ s'.rr (.storeBusy i) = true := by
    constructor
    · intro h
      obtain ⟨i, hi⟩ := Option.isSome_iff_exists.1 stores.storeSlot_isSome
      exact ⟨i, (storeSlot_spec hi).1, (storeSlot_spec hi).2, st.raised.2 (.inr ⟨h, hi⟩)⟩
    · rintro ⟨i, hi, hfree, hbusy⟩
      rcases st.raised.1 hbusy with ⟨-, hb, -⟩ | ⟨h, -⟩
      · rw [hfree] at hb
        cases hb
      · exact h
  have old : s.rr .lockStall = true ∧ s.rm.lockSignal = false → q.performed = [] := by
    rintro ⟨-, hs⟩
    by_contra hp
    rw [ok.signal.2 hp] at hs
    cases hs
  rw [st.raised, ← new]
  refine ⟨Or.imp_left old, fun h => h.elim (fun hp => ?_) .inr⟩
  -- before the first completion the lock is held since the issue
  obtain ⟨i, hi, hb⟩ := hb
  rcases st.raised.1 hb with ⟨-, hb, -⟩ | ⟨h, -⟩
  · have hF : q.inFlight ≠ [] := List.ne_nil_of_mem ((stores.busy i).2 ⟨hi, hb⟩)
    refine .inl ⟨ok.held hp hF, ?_⟩
    by_contra hs
    exact ok.signal.1 (by simpa using hs) hp
  · exact .inr h

section
variable (image : MemData) (garbage : ℤ → ℤ → ℤ) (hist : ℤ)

omit [WideShift] in
theorem lockOk_cpuCreate :
    LockOk (latch (cpuCreate image garbage hist)) (cpuCreate image garbage hist).plain where
  signal := iff_of_false (fun h => by cases h) fun h => h rfl
  held := fun _ h => absurd rfl h

theorem lockOk_of_cpuRun {os : List Schedule} {c : Cpu}
    (hr : cpuRun os (cpuCreate image garbage hist) = .ok c) : LockOk (latch c) c.plain :=
  cpuRun_induction (I := LockOk) (lockOk_cpuCreate image garbage hist) (fun ok st => ok.step st) hr

theorem exclusive_iff {os : List Schedule} {o : Schedule} {c₀ c : Cpu}
    (hr : cpuRun os (cpuCreate image garbage hist) = .ok c₀) (h : cpuTick o c₀ = .ok c)
    (hb : ∃ i ∈ memSlots, (latch c).rr (.storeBusy i) = true) :
    (latch c).Exclusive ↔ LockHeld c₀ c := by
  obtain ⟨p, st⟩ := step_of_cpuTick h
  have ok := lockOk_of_cpuRun image garbage hist hr
  have hlock := ok.lockStall_iff (storesOk_of_cpuRun image garbage hist hr) st hb
  have hpop : (latch c).Exclusive ↔ (latch c).lsqPop = none :=
    ⟨fun h => (h hb).1, fun h _ => ⟨h, lsqIssue_of_pop h⟩⟩
  rw [hpop, lsqPop_eq_none_iff, hlock, or_left_comm, or_assoc]
  rfl

/-- The queue is left to the stores in all states of a run if and only if the lock
    is held, or there is nothing to pop, after each of its ticks that leaves a store in
    a slot. -/
theorem store_lock (os : List Schedule) :
    (∀ os₁ os₂ c, os = os₁ ++ os₂ → cpuRun os₁ (cpuCreate image garbage hist) = .ok c →
      (latch c).Exclusive) ↔
    ∀ os₁ o os₂ c₀ c, os = os₁ ++ o :: os₂ →
      cpuRun os₁ (cpuCreate image garbage hist) = .ok c₀ → cpuTick o c₀ = .ok c →
      (∃ i ∈ memSlots, (latch c).rr (.storeBusy i) = true) → LockHeld c₀ c := by
  constructor
  · intro hex os₁ o os₂ c₀ c he hr h hb
    refine (exclusive_iff image garbage hist hr h hb).1 (hex (os₁ ++ [o]) os₂ c (by simp [he]) ?_)
    rw [cpuRun_append, hr]
    exact bind_ok.2 ⟨c₀, rfl, bind_ok.2 ⟨c, h, rfl⟩⟩
  · intro hlock os₁ os₂ c he hr
    rcases List.eq_nil_or_concat os₁ with rfl | ⟨os₀, o, rfl⟩
    · cases hr
      rintro ⟨i, -, hb⟩
      cases hb
    · rw [List.concat_eq_append] at he hr
      rw [cpuRun_append] at hr
      obtain ⟨c₀, hr, h⟩ := bind_ok.1 hr
      obtain ⟨c₁, h, h₁⟩ := bind_ok.1 h
      cases h₁
      intro hb
      exact (exclusive_iff image garbage hist hr h hb).2
        (hlock os₀ o os₂ c₀ c (by simp [he]) hr h hb) hb

end

omit [WideShift] in
/-- The third store is popped while the second one is in its slot, long before HCF. -/
theorem later_store_not_exclusive :
    @cpuRun .masked (bootTicks 9) (boot storeBurst) = .ok (bootCpu 9 storeBurst) ∧
      (bootCpu 9 storeBurst).plain.hcf = false ∧
      ¬(latch (bootCpu 9 storeBurst)).Exclusive := by
  refine ⟨cpuRun_boot (by decide +kernel), by decide +kernel, fun h => ?_⟩
  have hpop := (h ⟨0, by decide, by decide +kernel⟩).1
  revert hpop
  decide +kernel

end TomasuloCpu
