import Mathlib.Algebra.Ring.Nat
import TomasuloCpu.Forwarding

set_option autoImplicit false

/-!
# The fates of instructions

Instructions are numbered as they are dispatched. Every one is retired, squashed
by a flush or still in the reorder buffer, and they retire in their order.
-/
namespace TomasuloCpu
open Clocked

/-- The instructions that a tick drops: those in the reorder buffer in the tick
    after a misprediction. -/
def Latched.drops (s : Latched) : List ℕ :=
  if s.rm.robs.clear then s.robs.map fun slot => (s.rm.robPayload slot).seq else []

variable [WideShift]

def squashedBy : List Schedule → Cpu → List ℕ
  | [], _ => []
  | o :: os, c =>
    (latch c).drops ++
      match cpuTick o c with
      | .ok c' => squashedBy os c'
      | .error _ => []

variable {s s' : Latched} {q p q' : Plain}

/-- What a tick drops, retires and keeps is what was there and what it dispatches. -/
theorem fates_step (ctl : Control s) (st : Step s q p s' q') :
    (s.drops ++ seqs s' q').Perm
      (seqs s q ++ List.range' q.dispatched (q'.dispatched - q.dispatched)) := by
  cases hc : s.rm.robs.clear
  · have hd : List.range' q.dispatched (q'.dispatched - q.dispatched) =
        if (s.dispatch p).isSome then [q.dispatched] else [] := by
      rw [st.dispatched, Nat.add_sub_cancel_left]
      split <;> rfl
    rw [Latched.drops, if_neg (by simp [hc]), List.nil_append, st.seqs_eq ctl hc, hd]
  · have hd : s.dispatch p = none := by simp [Latched.dispatch, ctl.forcePc.trans hc]
    rw [Latched.drops, if_pos hc, st.seqs_clear ctl hc, st.dispatched, hd]
    simp [seqs, List.perm_append_comm]

section
variable {os : List Schedule} {c₀ c : Cpu}

theorem dispatched_mono (hr : cpuRun os c₀ = .ok c) : c₀.plain.dispatched ≤ c.plain.dispatched :=
  cpuRun_induction (I := fun _ q => c₀.plain.dispatched ≤ q.dispatched) (Nat.le_refl _)
    (fun h st => by rw [st.dispatched]; exact Nat.le_add_right_of_le h) hr

theorem fates_of_cpuRun (ctl : Control (latch c₀)) (hr : cpuRun os c₀ = .ok c) :
    (squashedBy os c₀ ++ seqs (latch c) c.plain).Perm (seqs (latch c₀) c₀.plain ++
      List.range' c₀.plain.dispatched (c.plain.dispatched - c₀.plain.dispatched)) := by
  induction os generalizing c₀ with
  | nil =>
    cases hr
    simp [squashedBy]
  | cons o os ih =>
    obtain ⟨c₁, h₁, h₂⟩ := bind_ok.1 hr
    obtain ⟨p, st⟩ := step_of_cpuTick h₁
    have hrest := ih (st.control ctl) h₂
    have hstep := fates_step ctl st
    have hle₁ : c₀.plain.dispatched ≤ c₁.plain.dispatched := by
      rw [st.dispatched]
      exact Nat.le_add_right _ _
    have hle₂ := dispatched_mono h₂
    -- the numbers given out by the tick and by the rest of the run
    have hrange : List.range' c₀.plain.dispatched (c.plain.dispatched - c₀.plain.dispatched) =
        List.range' c₀.plain.dispatched (c₁.plain.dispatched - c₀.plain.dispatched) ++
          List.range' c₁.plain.dispatched (c.plain.dispatched - c₁.plain.dispatched) := by
      have h := List.range'_append_1 (s := c₀.plain.dispatched)
        (m := c₁.plain.dispatched - c₀.plain.dispatched)
        (n := c.plain.dispatched - c₁.plain.dispatched)
      rw [Nat.add_sub_cancel' hle₁] at h
      rw [h]
      congr 1
      omega
    have hsq : squashedBy (o :: os) c₀ = (latch c₀).drops ++ squashedBy os c₁ := by
      rw [squashedBy, h₁]
    rw [hsq, hrange, List.append_assoc, ← List.append_assoc (seqs _ _)]
    refine ((hrest.append_left _).trans ?_).trans (hstep.append_right _)
    rw [← List.append_assoc]

/-- Every dispatched instruction is retired once, or squashed once, or in the
    reorder buffer, and those that are not squashed are in program order. -/
theorem instruction_fates (image : MemData) (garbage : ℤ → ℤ → ℤ) (hist : ℤ)
    (hr : cpuRun os (cpuCreate image garbage hist) = .ok c) :
    (seqs (latch c) c.plain ++ squashedBy os (cpuCreate image garbage hist)).Perm
        (List.range c.plain.dispatched) ∧
      (seqs (latch c) c.plain).Pairwise (· < ·) := by
  have hsorted := (captures_of_cpuRun image garbage hist hr).numbered.sorted
  refine ⟨List.perm_append_comm.trans ?_, hsorted⟩
  rw [List.range_eq_range']
  exact fates_of_cpuRun (control_cpuCreate image garbage hist) hr

end

omit [WideShift] in
/-- The flush of the branch drops what was dispatched behind it. -/
theorem instruction_fates_branch :
    (seqs (latch (bootCpu 7 branchProgram)) (bootCpu 7 branchProgram).plain ++
        @squashedBy .masked (bootTicks 7) (boot branchProgram)).Perm
      (List.range (bootCpu 7 branchProgram).plain.dispatched) :=
  (@instruction_fates .masked _ _ _ _ _ (cpuRun_boot (by decide +kernel))).1

end TomasuloCpu
