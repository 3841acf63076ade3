import TomasuloCpu.Boot
import TomasuloCpu.Path
import TomasuloCpu.TickOrder

set_option autoImplicit false

/-!
# Commits

`_rob_commit` counts before it knows whether it can pop the head, so a store
that finds the load-store queue full is counted in every tick that it waits.
-/
namespace TomasuloCpu
open Clocked

/-- The entries that are popped, and the HCF entry that never is. -/
def Plain.popped (q : Plain) : ℤ := q.retired.length + if q.hcf then 1 else 0

namespace Latched
variable (s : Latched)

def stalled : Bool := s.commits && s.head.op = .store && lsQueueFull s

/-- Commit leaves everything as it is where it cannot pop the head. -/
def Retries : Prop := s.stalled = true → robUnitTick s = []

end Latched

section
variable {s : Latched}

theorem Latched.commits_of_stalled (h : s.stalled = true) : s.commits = true := by
  simp only [Latched.stalled, Bool.and_eq_true] at h
  exact h.1.1

theorem Latched.not_retires_of_stalled (h : s.stalled = true) : s.retires = false := by
  simp only [Latched.stalled, Bool.and_eq_true, decide_eq_true_eq] at h
  simp [Latched.retires, h.1.2, h.2]

theorem Latched.commits_cases (s : Latched) :
    (if s.commits then 1 else 0 : ℤ) = (if s.retires then 1 else 0) +
      (if s.commits && s.head.op = .hcf then 1 else 0) + if s.stalled then 1 else 0 := by
  cases hc : s.commits
  · simp [Latched.retires, Latched.stalled, hc]
  · cases ho : s.head.op <;> cases hf : lsQueueFull s <;>
      simp [Latched.retires, Latched.stalled, hc, ho, hf]

theorem robUnitTick_of_stalled (h : s.stalled = true) :
    robUnitTick s = [.plain .countCommit] := by
  have hc := Latched.commits_of_stalled h
  simp only [Latched.stalled, Bool.and_eq_true, decide_eq_true_eq] at h
  rw [robUnitTick_eq, if_pos hc, robCommit, Latched.robPayload_head]
  simp [h.1.2, h.2]

theorem retries_iff : s.Retries ↔ s.stalled = false := by
  cases h : s.stalled
  · exact iff_of_true (fun h' => absurd (h.symm.trans h') (by simp)) rfl
  · refine iff_of_false (fun hr => ?_) (by simp)
    have he := robUnitTick_of_stalled h
    rw [hr h] at he
    cases he

theorem plainAll_robUnitTick_commitCount (p : Plain) :
    (plainAll PlainOp.act (robUnitTick s) p).commitCount =
      p.commitCount + if s.commits then 1 else 0 := by
  rw [robUnitTick_eq]
  cases hc : s.commits
  · exact (Int.add_zero _).symm
  · simp only [↓reduceIte, robCommit, Latched.robPayload_head]
    cases s.head.op <;> dsimp only <;> (try split_ifs) <;>
      simp [plainAll, plains_regStoreSet, plains_robFlush, plains_lsQueuePush, plains_robRetire,
        PlainOp.act]

end

section
variable [WideShift] {o : Schedule} {os : List Schedule} {c c' : Cpu}

theorem commitCount_of_cpuTick (h : cpuTick o c = .ok c') : c'.plain.commitCount =
    c.plain.commitCount + if (latch c).commits then 1 else 0 := by
  have hx : ∀ x : PlainOp, (∃ d ∈ x.owners, d ≠ .robUnitTick) →
      ∀ p, (x.act p).commitCount = p.commitCount := fun _ => PlainOp.act_commitCount
  rw [plainAfter_owner_eq Plain.commitCount (by decide) hx h]
  rw [← cpuPlainAt_owner (o := o) (c := c) Plain.commitCount .robUnitTick hx]
  exact plainAll_robUnitTick_commitCount _

/-- A tick counts one entry too many if it stalls. -/
theorem excess_of_cpuTick (h : cpuTick o c = .ok c') (hh : c.plain.hcf = false) :
    c'.plain.commitCount - c'.plain.popped =
      c.plain.commitCount - c.plain.popped + if (latch c).stalled then 1 else 0 := by
  obtain ⟨p, st⟩ := step_of_cpuTick h
  have hcount := commitCount_of_cpuTick h
  have hcases := (latch c).commits_cases
  have hlen : (c'.plain.retired.length : ℤ) =
      c.plain.retired.length + if (latch c).retires then 1 else 0 := by
    rw [st.retired, List.length_append, Latched.retired]
    split <;> simp
  have hhcf : c'.plain.hcf = ((latch c).commits && (latch c).head.op = .hcf) := by
    rw [st.hcf, hh, Bool.false_or]
  simp only [Plain.popped, hh, hhcf, hlen, hcount, hcases]
  simp only [Bool.false_eq_true, ↓reduceIte]
  omega

theorem excess_of_cpuRun (hr : cpuRun os c = .ok c')
    (hh : RunAll (fun _ c => c.plain.hcf = false) os c) :
    c.plain.commitCount - c.plain.popped ≤ c'.plain.commitCount - c'.plain.popped ∧
      (c'.plain.commitCount - c'.plain.popped = c.plain.commitCount - c.plain.popped ↔
        RunAll (fun _ c => (latch c).stalled = false) os c) := by
  induction os generalizing c with
  | nil =>
    cases hr
    exact ⟨Int.le_refl _, iff_of_true rfl trivial⟩
  | cons o os ih =>
    obtain ⟨c₁, h₁, h₂⟩ := bind_ok.1 hr
    obtain ⟨hle, hiff⟩ := ih h₂ (hh.2 c₁ h₁)
    have hstep := excess_of_cpuTick h₁ hh.1
    have hall : RunAll (fun _ c => (latch c).stalled = false) (o :: os) c ↔
        (latch c).stalled = false ∧ RunAll (fun _ c => (latch c).stalled = false) os c₁ := by
      refine and_congr_right fun _ => ⟨fun h => h c₁ h₁, fun h c₂ h₂ => ?_⟩
      obtain rfl : c₁ = c₂ := Except.ok.inj (h₁.symm.trans h₂)
      exact h
    rw [hall]
    cases hs : (latch c).stalled
    · rw [hs] at hstep
      simp only [Bool.false_eq_true, ↓reduceIte, Int.add_zero] at hstep
      rw [hstep] at hle hiff
      exact ⟨hle, by simpa using hiff⟩
    · rw [hs] at hstep
      simp only [↓reduceIte] at hstep
      refine ⟨by omega, iff_of_false (by omega) (by simp)⟩

/-- A stalled store is at the head again in the next tick, and nothing is popped. -/
theorem Conserved.stalls {s s' : Latched} {q p q' : Plain} (inv : Conserved s)
    (st : Step s q p s' q') (h : s.stalled = true) :
    s'.commits = true ∧ s'.head = s.head ∧ q'.retired = q.retired := by
  have hr := Latched.not_retires_of_stalled h
  obtain ⟨hcommits, hhead⟩ := inv.waits st (Latched.commits_of_stalled h) hr
  exact ⟨hcommits, hhead, by simp [st.retired, Latched.retired, hr]⟩

/-- Commits are all or nothing and counted once in the runs without a stall, and in
    no others. -/
theorem commits_counted_iff {image : MemData} {garbage : ℤ → ℤ → ℤ} {hist : ℤ}
    (hr : cpuRun os (cpuCreate image garbage hist) = .ok c)
    (hh : RunAll (fun _ c => c.plain.hcf = false) os (cpuCreate image garbage hist)) :
    (RunAll (fun _ c => (latch c).Retries) os (cpuCreate image garbage hist) ∧
        c.plain.commitCount = c.plain.popped) ↔
      RunAll (fun _ c => (latch c).stalled = false) os (cpuCreate image garbage hist) := by
  obtain ⟨-, hiff⟩ := excess_of_cpuRun hr hh
  have h0 : (cpuCreate image garbage hist).plain.commitCount -
      (cpuCreate image garbage hist).plain.popped = 0 := rfl
  rw [h0, Int.sub_eq_zero] at hiff
  simp only [retries_iff, hiff, and_self]

end

/-- The twelfth store has been counted and is still in the reorder buffer. -/
theorem commits_miscounted :
    (@cpuRun .masked (bootTicks 14) (boot storeBurst)).isOk = true ∧
      (bootCpu 14 storeBurst).plain.hcf = false ∧
      (bootCpu 14 storeBurst).plain.commitCount = 12 ∧
      (bootCpu 14 storeBurst).plain.popped = 11 := by
  decide +kernel

theorem commits_counted_add :
    (@RunAll .masked (fun _ c => (latch c).Retries) (bootTicks 7)
        (boot [0x00100093, instMagicHcf]) ∧
      (bootCpu 7 [0x00100093, instMagicHcf]).plain.commitCount =
        (bootCpu 7 [0x00100093, instMagicHcf]).plain.popped) ↔
      @RunAll .masked (fun _ c => (latch c).stalled = false) (bootTicks 7)
        (boot [0x00100093, instMagicHcf]) :=
  @commits_counted_iff .masked _ _ _ _ _ (cpuRun_boot (by decide +kernel)) (by decide +kernel)

end TomasuloCpu
