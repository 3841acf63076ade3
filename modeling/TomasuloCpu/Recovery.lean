import TomasuloCpu.Training

set_option autoImplicit false

/-!
# The cost of a wrong prediction

A flush costs three ticks: the CPU is emptied in the one after it, the instruction at
the right address is dispatched in the next, and cannot retire before the fourth.
-/
namespace TomasuloCpu
open Clocked

variable [WideShift] {s s' : Latched} {q p q' : Plain}

omit [WideShift] in
theorem Quiet.dispatch_eq (hq : Quiet s) (hf : s.rm.forcePc.busy = false) (p : Plain) :
    ∃ rs, s.dispatch p =
      if (instDecode (memGetInst p.data s.rm.pc)).op = InstOp.unimp then none
      else some (rs, instDecode (memGetInst p.data s.rm.pc)) := by
  have hfull : robUnitFull s = false := by
    have hne : (0 : ℤ) ≠ queueTrunc robCapacity (0 + 1) := by decide
    rw [robUnitFull, queueFull, hq.head, hq.tail]
    exact decide_eq_false hne
  obtain ⟨rs, hrs⟩ : ∃ rs, rsUnitAcquire s (instType (instDecode (memGetInst p.data s.rm.pc))) =
      some rs := by
    apply Option.isSome_iff_exists.1
    have hfree : ∀ rs ∈ stations, !s.rm.rsBusy rs := fun rs h => by simp [hq.rsBusy rs h]
    rw [rsUnitAcquire, List.find?_isSome]
    cases instType (instDecode (memGetInst p.data s.rm.pc)) with
    | reservationStation => exact ⟨1, by decide, hfree 1 (by decide)⟩
    | loadBuffer => exact ⟨8, by decide, hfree 8 (by decide)⟩
    | storeBuffer => exact ⟨16, by decide, hfree 16 (by decide)⟩
  refine ⟨rs, ?_⟩
  simp only [Latched.dispatch, hf, hfull, Bool.or_self, Bool.false_eq_true, ↓reduceIte, hrs,
    Option.map_some]

/-- What stands alone in the reorder buffer after a tick of the empty CPU. -/
theorem Quiet.dispatched (hq : Quiet s) (hc : s.rm.robs.clear = false) (ctl : Control s)
    (st : Step s q p s' q') :
    (instDecode (memGetInst p.data s.rm.pc)).op = InstOp.unimp ∧ s'.robs = [] ∨
      s'.robs = [s.rm.robs.tail] ∧ (s'.rm.robPayload s.rm.robs.tail).pc = s.rm.pc ∧
        (s'.rm.robPayload s.rm.robs.tail).inst = instDecode (memGetInst p.data s.rm.pc) ∧
        s'.rm.robReady s.rm.robs.tail = false := by
  obtain ⟨rs, hd⟩ := hq.dispatch_eq (ctl.forcePc.trans hc) p
  have hrobs := st.robs_eq hc ctl.robs
  rw [hq.robs, List.tail_nil, ite_self, List.nil_append] at hrobs
  by_cases hu : (instDecode (memGetInst p.data s.rm.pc)).op = InstOp.unimp
  · rw [if_pos hu] at hd
    exact .inl ⟨hu, by rw [hrobs, hd]; rfl⟩
  · rw [if_neg hu] at hd
    obtain ⟨-, -, hpc, hinst⟩ := st.entry_dispatch hd
    exact .inr ⟨by rw [hrobs, hd]; rfl, hpc, hinst, st.robReady_dispatch (by rw [hd]; rfl)⟩

omit [WideShift] in
theorem Quiet.commits_eq (hq : Quiet s) (ctl : Control s) : s.commits = false := by
  by_contra hcm
  have hm := head_mem ctl (by simpa using hcm)
  rw [hq.robs] at hm
  cases hm

theorem Quiet.commits_step (hq : Quiet s) (hc : s.rm.robs.clear = false) (ctl : Control s)
    (st : Step s q p s' q') : s'.commits = false := by
  by_contra hcm
  have hcm : s'.commits = true := by simpa using hcm
  have hm := head_mem (st.control ctl) hcm
  rcases hq.dispatched hc ctl st with ⟨-, he⟩ | ⟨he, -, -, hr⟩
  · rw [he] at hm
    cases hm
  · rw [he, List.mem_singleton] at hm
    have hready := (Bool.and_eq_true_iff.1 hcm).2
    rw [hm, hr] at hready
    cases hready

/-- Ticks of which it is known that nothing will retire in them. -/
def Latched.lost (s : Latched) : ℕ :=
  if s.rm.robs.clear then 3 else if s.rm.busClear = 1 then 2 else if s.commits then 0 else 1

omit [WideShift] in
theorem lost_le (s : Latched) : s.lost ≤ 3 := by
  unfold Latched.lost
  split_ifs <;> omega

/-- A tick retires an instruction or is one of the lost ones. -/
theorem lost_step (ctl : Control s) (st : Step s q p s' q') :
    s.retired.toList.length + 3 * (if s.flushes then 1 else 0) + s.lost ≤ 1 + s'.lost := by
  have idle : s.commits = false →
      s.retired.toList.length + 3 * (if s.flushes then 1 else 0) = 0 := by
    intro hc
    simp [Latched.retired, Latched.retires, Latched.flushes, hc]
  have hbus := st.busClear
  unfold Latched.lost
  rw [st.robsClear]
  cases hc : s.rm.robs.clear with
  | true =>
    have hcm : s.commits = false := by simp [Latched.commits, hc]
    have hf : s.flushes = false := by simp [Latched.flushes, hcm]
    have hb : s.rm.busClear = 2 := by
      rcases ctl.busClear with ⟨h, -⟩ | ⟨-, h, -⟩ | ⟨-, h⟩
      · exact h
      · simp [hc] at h
      · simp [hc] at h
    rw [hf, hb] at hbus
    rw [idle hcm, hf, if_pos rfl, if_neg Bool.false_ne_true, if_pos (by simpa using hbus)]
  | false =>
    rw [if_neg Bool.false_ne_true]
    rcases ctl.busClear with ⟨-, h⟩ | ⟨hb, -, hq⟩ | ⟨hb, -⟩
    · simp [hc] at h
    · -- the CPU is empty, and what it dispatches is not ready
      have hcm := hq.commits_eq ctl
      have hf : s.flushes = false := by simp [Latched.flushes, hcm]
      have hcm' := hq.commits_step hc ctl st
      rw [idle hcm, hf, hb, if_pos rfl, if_neg Bool.false_ne_true, hcm', if_neg Bool.false_ne_true]
      split_ifs <;> omega
    · have hno : s.rm.busClear ≠ 1 := by
        rw [hb]
        decide
      rw [if_neg hno]
      cases hcm : s.commits with
      | false =>
        rw [idle hcm, if_neg Bool.false_ne_true]
        omega
      | true =>
        have hone : s.retired.toList.length ≤ 1 := by
          cases s.retired <;> simp
        cases hf : s.flushes with
        | true =>
          simp only [↓reduceIte]
          omega
        | false =>
          simp only [↓reduceIte, Bool.false_eq_true]
          omega

section
variable {os : List Schedule} {c c' : Cpu}

theorem retired_add_lost (ctl : Control (latch c)) (hr : cpuRun os c = .ok c') :
    c'.plain.retired.length + 3 * flushCount os c + (latch c).lost ≤
      c.plain.retired.length + os.length + (latch c').lost := by
  induction os generalizing c with
  | nil =>
    cases hr
    simp [flushCount]
  | cons o os ih =>
    obtain ⟨c₁, h₁, h₂⟩ := bind_ok.1 hr
    obtain ⟨p, st⟩ := step_of_cpuTick h₁
    have hrest := ih (st.control ctl) h₂
    have hstep := lost_step ctl st
    rw [st.retired, List.length_append] at hrest
    rw [flushCount, h₁, List.length_cons]
    dsimp only
    omega

end

section
variable (image : MemData) (garbage : ℤ → ℤ → ℤ) (hist : ℤ)

/-- The tick after the next one that follows a wrong prediction dispatches the
    instruction at the right address, if there is one, into the empty buffer. -/
theorem dispatches_after_flush {os : List Schedule} {o o₁ o₂ : Schedule} {c c₁ c₂ c₃ : Cpu}
    (hr : cpuRun os (cpuCreate image garbage hist) = .ok c) (hf : (latch c).flushes = true)
    (h : cpuTick o c = .ok c₁) (h₁ : cpuTick o₁ c₁ = .ok c₂) (h₂ : cpuTick o₂ c₂ = .ok c₃) :
    (latch c₁).retires = false ∧ (latch c₂).retires = false ∧ (latch c₃).retires = false ∧
      ∃ data, (data = c₂.plain.data ∨ data = c₃.plain.data) ∧
        ((instDecode (memGetInst data (robAddr (latch c).head))).op = InstOp.unimp ∧
            (latch c₃).robs = [] ∨
          ∃ slot, (latch c₃).robs = [slot] ∧
            ((latch c₃).rm.robPayload slot).pc = robAddr (latch c).head ∧
            ((latch c₃).rm.robPayload slot).inst =
              instDecode (memGetInst data (robAddr (latch c).head))) := by
  have ctl := (conserved_of_cpuRun image garbage hist hr).control
  obtain ⟨p, st⟩ := step_of_cpuTick h
  obtain ⟨p₁, st₁⟩ := step_of_cpuTick h₁
  obtain ⟨p₂, st₂⟩ := step_of_cpuTick h₂
  have hs := squashed ctl hf st st₁
  have ctl₁ := st.control ctl
  have ctl₂ := st₁.control ctl₁
  have hc₁ : (latch c₁).rm.robs.clear = true := st.robsClear.trans hf
  have hcm₁ : (latch c₁).commits = false := by simp [Latched.commits, hc₁]
  have hc₂ : (latch c₂).rm.robs.clear = false := by
    rw [st₁.robsClear]
    simp [Latched.flushes, hcm₁]
  have hidle : ∀ {t : Latched}, t.commits = false → t.retires = false := fun h => by
    simp [Latched.retires, h]
  refine ⟨hidle hcm₁, hidle (hs.quiet.commits_eq ctl₂), hidle (hs.quiet.commits_step hc₂ ctl₂ st₂),
    p₂.data, st₂.fetched, ?_⟩
  rw [← hs.pc]
  rcases hs.quiet.dispatched hc₂ ctl₂ st₂ with h | ⟨hr₃, hpc, hinst, -⟩
  · exact .inl h
  · exact .inr ⟨_, hr₃, hpc, hinst⟩

/-- A tick retires at most one instruction, and every wrong prediction but the last
    costs three ticks in which none retires. -/
theorem cycles_of_cpuLoop {os : List Schedule} {m : Machine}
    (hl : cpuLoop os (machineCreate image garbage hist) = .ok m) :
    m.cpu.plain.retired.length + 3 * ((stats m).bpTotal - (stats m).bpCorrect +
      ((stats m).jalrTotal - (stats m).jalrCorrect)) ≤ (stats m).cycles + 3 := by
  obtain ⟨os₁, os₂, rfl, hr, -, hclk, -⟩ := run_of_cpuLoop (loopAll_true _ _) hl
  have hwrong := wrong_of_cpuRun image garbage hist hr
  have hle := retired_add_lost (control_cpuCreate image garbage hist) hr
  have hlost := lost_le (latch m.cpu)
  have hstart : (cpuCreate image garbage hist).plain.retired.length = 0 := rfl
  have hclk' : (stats m).cycles = os₁.length := by
    rw [stats, hclk]
    exact Int.zero_add _
  rw [hclk']
  change _ + 3 * (m.cpu.plain.bp.total - m.cpu.plain.bp.correct +
    (m.cpu.plain.bp.jalrTotal - m.cpu.plain.bp.jalrCorrect)) ≤ _
  omega

end

omit [WideShift] in
/-- The instruction after the branch is dispatched again, in the eighth tick. -/
theorem dispatches_after_flush_branch : ∃ slot, (latch (bootCpu 8 branchProgram)).robs = [slot] ∧
    ((latch (bootCpu 8 branchProgram)).rm.robPayload slot).pc = 4 := by
  obtain ⟨-, -, -, data, hdata, ⟨-, he⟩ | ⟨slot, hs, hpc, -⟩⟩ :=
    @dispatches_after_flush .masked (imageOf branchProgram) (fun _ _ => 0) 0 (bootTicks 5) .inOrder
      .inOrder .inOrder (bootCpu 5 branchProgram) (bootCpu 6 branchProgram)
      (bootCpu 7 branchProgram) (bootCpu 8 branchProgram) (cpuRun_boot (by decide +kernel))
      (by decide +kernel) (cpuTick_boot (by decide +kernel)) (cpuTick_boot (by decide +kernel))
      (cpuTick_boot (by decide +kernel))
  · exact absurd he (by decide +kernel)
  · exact ⟨slot, hs, hpc.trans (by decide +kernel)⟩

omit [WideShift] in
theorem cycles_of_cpuLoop_branch :
    (loopMachine 9 (bootMachine 0 branchProgram)).cpu.plain.retired.length +
        3 * ((stats (loopMachine 9 (bootMachine 0 branchProgram))).bpTotal -
          (stats (loopMachine 9 (bootMachine 0 branchProgram))).bpCorrect +
          ((stats (loopMachine 9 (bootMachine 0 branchProgram))).jalrTotal -
            (stats (loopMachine 9 (bootMachine 0 branchProgram))).jalrCorrect)) ≤
      (stats (loopMachine 9 (bootMachine 0 branchProgram))).cycles + 3 :=
  @cycles_of_cpuLoop .masked (imageOf branchProgram) (fun _ _ => 0) 0 (bootTicks 9)
    (loopMachine 9 (bootMachine 0 branchProgram)) (cpuLoop_boot (by decide +kernel))

end TomasuloCpu
