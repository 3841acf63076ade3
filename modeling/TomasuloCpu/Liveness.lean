import TomasuloCpu.Fates
import TomasuloCpu.Main
import TomasuloCpu.Progress

set_option autoImplicit false

/-!
# Progress of the CPU

Within a bounded number of ticks an instruction retires, in whatever order the
callbacks run; so no instruction waits in the reorder buffer for ever.
-/
namespace TomasuloCpu
open Clocked Progress Walks

/-- An entry of the reorder buffer adds at most 10 to the rank, and the
    load-store queue, memory and the lock at most 61. -/
def rankBound : ℕ := 221

def cpuRank (s : Latched) : ℕ :=
  if s.rm.busClear = 0 then s.rank else rankBound + s.rm.busClear.toNat

/-- The number of ticks within which an instruction retires. -/
def commitBound : ℕ := rankBound + 3

variable [WideShift]

/-- One tick, in any order of the callbacks and listeners, that trips no assertion. -/
def Ticks (c c' : Cpu) : Prop := ∃ o, cpuTick o c = .ok c'

/-- The CPU has come to HCF or waits for an instruction that it cannot dispatch. -/
def Ended (c : Cpu) : Prop := c.plain.hcf = true ∨ (latch c).Stuck c.plain

variable {s s' : Latched} {q p q' : Plain}

omit [WideShift] in
theorem robs_length_lt (ctl : Control s) : s.robs.length < robCapacity.toNat := by
  have hl := Ring.length_lt ctl.robs.head ctl.robs.tail
  rw [Latched.robs, ctl.robs.queueForeach_eq, Ring.length_slots]
  omega

omit [WideShift] in
theorem lsq_length_lt (ctl : Control s) : s.lsq.length < lsQueueCapacity.toNat := by
  have hl := Ring.length_lt ctl.lsq.head ctl.lsq.tail
  rw [Latched.lsq, ctl.lsq.queueForeach_eq, Ring.length_slots]
  omega

omit [WideShift] in
theorem StoresOk.storeRank_le (so : StoresOk s q) {i : ℕ} (hi : i ∈ memSlots) :
    s.storeRank i ≤ 2 := by
  unfold Latched.storeRank
  split
  · next hb =>
    have := so.ticks_bounds ((so.busy i).2 ⟨hi, hb⟩)
    simp only [memTicks] at this
    omega
  · omega

omit [WideShift] in
theorem Live.rank_le (live : Live s q) : s.rank ≤ rankBound := by
  have inv := live.coherent.conserved
  have hrobs := robs_length_lt inv.control
  have hlsq := lsq_length_lt inv.control
  have hmissing : s.missing ≤ s.robs.length * 2 := by
    have h := List.sum_le_card_nsmul (s.robs.map fun slot => (s.rm.robPayload slot).missing) 2
      fun n hn => by
        obtain ⟨slot, -, rfl⟩ := List.mem_map.1 hn
        unfold RobPayload.missing
        split_ifs <;> omega
    simpa [Latched.missing] using h
  have hcarriers : s.carriers.length ≤ s.robs.length := by
    rw [inv.perm.length_eq, Latched.openKeys, List.length_map]
    exact List.length_filter_le _ _
  have hload : ∀ i ∈ memSlots, s.loadRank i ≤ 4 := by
    intro i hi
    unfold Latched.loadRank
    split
    · next hb => rcases live.loads.due i hi hb with h | h <;> simp [h]
    · omega
  have hlock : s.lockRank ≤ 1 := by
    unfold Latched.lockRank
    split <;> omega
  have h0 := hload 0 (by decide)
  have h1 := hload 1 (by decide)
  have h2 := hload 2 (by decide)
  have h0' := live.stores.storeRank_le (i := 0) (by decide)
  have h1' := live.stores.storeRank_le (i := 1) (by decide)
  have h2' := live.stores.storeRank_le (i := 2) (by decide)
  simp only [Latched.carriers, List.length_append] at hcarriers
  simp only [robCapacity, lsQueueCapacity, Int.reduceToNat] at hrobs hlsq
  simp only [Latched.rank, rankBound, robCapacity, Int.reduceToNat]
  omega

/-- A tick without a commit lowers the rank, unless the CPU has come to an end. -/
theorem Live.cpuRank_lt (live : Live s q) (st : Step s q p s' q') (hr : s.retires = false) :
    cpuRank s' < cpuRank s ∨ q'.hcf = true ∨ s.Stuck q := by
  have ctl := live.coherent.conserved.control
  have hbus := st.busClear
  rw [Latched.not_flushes hr, if_neg Bool.false_ne_true] at hbus
  have hbound := (live.step st).rank_le
  rcases ctl.busClear with ⟨hb, -⟩ | ⟨hb, -⟩ | ⟨hb, hc⟩
  · refine .inl ?_
    rw [if_neg (by omega)] at hbus
    simp [cpuRank, hbus, hb]
  · refine .inl ?_
    rw [if_neg (by omega)] at hbus
    simp [cpuRank, hbus, hb]
    omega
  · rw [if_pos hb] at hbus
    rw [cpuRank, cpuRank, if_pos hb, if_pos hbus]
    have hle := st.rank_le live.coherent live.loads live.stores hc hb hr
    by_cases hm : s.moves q p = 0
    · refine .inr ?_
      refine ((still_of_moves hm).stuck live st hc hb hr).imp_left fun h => ?_
      rw [st.hcf]
      simp [h.1, h.2]
    · exact .inl (by omega)

section
variable {c c' : Cpu} {os : List Schedule} {P : Cpu → Prop} {n : ℕ}

theorem passes_of_within (h : Within Ticks P n c) (hr : cpuRun os c = .ok c')
    (hn : n ≤ os.length) : ∃ os₁ os₂ c₁, os = os₁ ++ os₂ ∧ cpuRun os₁ c = .ok c₁ ∧
      cpuRun os₂ c₁ = .ok c' ∧ P c₁ := by
  induction n generalizing c os with
  | zero => exact ⟨[], os, c, rfl, rfl, hr, h⟩
  | succ n ih =>
    cases h with
    | inl h => exact ⟨[], os, c, rfl, rfl, hr, h⟩
    | inr h =>
      cases os with
      | nil => simp at hn
      | cons o os =>
        obtain ⟨c₀, h₀, hr⟩ := bind_ok.1 hr
        obtain ⟨os₁, os₂, c₁, rfl, h₁, h₂, hp⟩ :=
          ih (h c₀ ⟨o, h₀⟩) hr (Nat.le_of_succ_le_succ hn)
        exact ⟨o :: os₁, os₂, c₁, rfl, bind_ok.2 ⟨c₀, h₀, h₁⟩, h₂, hp⟩

theorem live_step (live : Live (latch c) c.plain) (h : Ticks c c') :
    Live (latch c') c'.plain := by
  obtain ⟨o, h⟩ := h
  obtain ⟨p, st⟩ := step_of_cpuTick h
  exact live.step st

theorem live_run (live : Live (latch c) c.plain) (hr : cpuRun os c = .ok c') :
    Live (latch c') c'.plain :=
  cpuRun_induction live (fun live st => live.step st) hr

theorem retired_mono (hr : cpuRun os c = .ok c') : c.plain.retired <+: c'.plain.retired :=
  cpuRun_induction (I := fun _ q => c.plain.retired <+: q.retired) (List.prefix_refl _)
    (fun h st => by rw [st.retired]; exact h.trans (List.prefix_append _ _)) hr

theorem hcf_mono (hh : c.plain.hcf = true) (hr : cpuRun os c = .ok c') : c'.plain.hcf = true :=
  cpuRun_induction (I := fun _ q => q.hcf = true) hh
    (fun h st => by rw [st.hcf, h, Bool.true_or]) hr

theorem commits_within (live : Live (latch c) c.plain) : Within Ticks
    (fun c' => c.plain.retired.length < c'.plain.retired.length ∨ Ended c') commitBound c := by
  have hstep : ∀ a b, (Live (latch a) a.plain ∧
      c.plain.retired.length ≤ a.plain.retired.length) → Ticks a b →
      (Live (latch b) b.plain ∧ c.plain.retired.length ≤ b.plain.retired.length) := by
    rintro a b ⟨ha, hle⟩ ⟨o, h⟩
    obtain ⟨p, st⟩ := step_of_cpuTick h
    refine ⟨ha.step st, ?_⟩
    rw [st.retired, List.length_append]
    omega
  refine Within.rank (fun c => cpuRank (latch c)) hstep ?_ ⟨live, Nat.le_refl _⟩ ?_
  · rintro a b ⟨ha, hle⟩ hp ⟨o, h⟩
    obtain ⟨p, st⟩ := step_of_cpuTick h
    cases hr : (latch a).retires with
    | true =>
      refine .inl (.inl ?_)
      rw [st.retired, Latched.retired, if_pos hr, List.length_append]
      exact Nat.lt_succ_of_le hle
    | false =>
      rcases ha.cpuRank_lt st hr with h | h | h
      · exact .inr h
      · exact .inl (.inr (.inl h))
      · exact absurd (.inr (.inr h)) hp
  · have hb := live.rank_le
    have hbus := live.coherent.conserved.control.busClear
    unfold cpuRank commitBound
    split <;> omega

/-- In a run of `m` times `commitBound` ticks `m` instructions have retired at some
    point, or the CPU has come to its end. -/
theorem commits_of_live (live : Live (latch c) c.plain) (m : ℕ) (hr : cpuRun os c = .ok c')
    (hn : m * commitBound ≤ os.length) : ∃ os₁ os₂ c₁, os = os₁ ++ os₂ ∧
      cpuRun os₁ c = .ok c₁ ∧ cpuRun os₂ c₁ = .ok c' ∧
      (c.plain.retired.length + m ≤ c₁.plain.retired.length ∨ Ended c₁) := by
  have hw := Within.count (R := Ticks) (Q := Ended) (fun c => c.plain.retired.length)
    (fun _ _ => live_step) (fun _ => commits_within) live m
  exact passes_of_within hw hr hn

theorem new_of_retired (ctl : Control (latch c)) (num : Numbered (latch c') c'.plain)
    (hr : cpuRun os c = .ok c')
    (hlen : (seqs (latch c) c.plain).length ≤ c'.plain.retired.length) {slot : ℤ}
    (hs : slot ∈ (latch c').robs) :
    c.plain.dispatched ≤ ((latch c').rm.robPayload slot).seq := by
  by_contra hlt
  -- the retired ones and this one are old, and there are no more old ones
  have hold : ∀ n ∈ c'.plain.retired.map RobPayload.seq, n < c.plain.dispatched := by
    intro n hn
    obtain ⟨data, hd, rfl⟩ := List.mem_map.1 hn
    have := num.retired_lt hd hs
    omega
  have hperm := (fates_of_cpuRun ctl hr).countP_eq (· < c.plain.dispatched)
  have hnew : (List.range' c.plain.dispatched
      (c'.plain.dispatched - c.plain.dispatched)).countP (· < c.plain.dispatched) = 0 := by
    refine List.countP_eq_zero.2 fun n hn => ?_
    have := (List.mem_range'_1.1 hn).1
    simpa using this
  have hslot : 0 < ((latch c').robs.map fun slot =>
      ((latch c').rm.robPayload slot).seq).countP (· < c.plain.dispatched) :=
    List.countP_pos_iff.2 ⟨_, List.mem_map_of_mem hs, by simpa using hlt⟩
  have hret : (c'.plain.retired.map RobPayload.seq).countP (· < c.plain.dispatched) =
      c'.plain.retired.length := by
    rw [List.countP_eq_length.2 fun n hn => by simpa using hold n hn, List.length_map]
  have hle := List.countP_le_length (p := (· < c.plain.dispatched))
    (l := seqs (latch c) c.plain)
  rw [List.countP_append, List.countP_append, hnew, seqs, List.countP_append, hret] at hperm
  omega

end

section
variable (image : MemData) (garbage : ℤ → ℤ → ℤ) (hist : ℤ)

omit [WideShift] in
theorem live_cpuCreate :
    Live (latch (cpuCreate image garbage hist)) (cpuCreate image garbage hist).plain where
  coherent := coherent_cpuCreate image garbage hist
  loads := loadsOk_cpuCreate image garbage hist
  stores := storesOk_cpuCreate image garbage hist
  lock := lockOk_cpuCreate image garbage hist
  lockWaits := fun h => by cases h
  storesOpen := fun slot hs => by cases hs

theorem live_of_cpuRun {os : List Schedule} {c : Cpu}
    (hr : cpuRun os (cpuCreate image garbage hist) = .ok c) : Live (latch c) c.plain :=
  live_run (live_cpuCreate image garbage hist) hr

/-- The loop of `main` never hangs: in `k` times `commitBound` iterations `k`
    instructions retire, unless it ends or the word that the retired path leads to
    is unknown. -/
theorem commits_of_ticks {os os' : List Schedule} {m m' : Machine} (k : ℕ)
    (hr : cpuRun os (cpuCreate image garbage hist) = .ok m.cpu) (hl : cpuLoop os' m = .ok m')
    (hn : k * commitBound ≤ os'.length) :
    m.cpu.plain.retired.length + k ≤ m'.cpu.plain.retired.length ∨ m'.cpu.plain.hcf = true ∨
      ∃ os₁ os₂ c, os' = os₁ ++ os₂ ∧ cpuRun os₁ m.cpu = .ok c ∧ (latch c).Stuck c.plain ∧
        Walk RobPayload.pc RobPayload.next 0 c.plain.retired (latch c).rm.pc := by
  have live := live_of_cpuRun image garbage hist hr
  obtain ⟨os₁, os₂, rfl, hrun, -, -, hend⟩ := run_of_cpuLoop (loopAll_true _ _) hl
  rcases hend with rfl | hh
  · rw [List.append_nil] at hn ⊢
    obtain ⟨os₁, os₂, c, rfl, h₁, h₂, hlen | hh | hs⟩ := commits_of_live live k hrun hn
    · exact .inl (Nat.le_trans hlen (retired_mono h₂).length_le)
    · exact .inr (.inl (hcf_mono hh h₂))
    · refine .inr (.inr ⟨os₁, os₂, c, rfl, h₁, hs, ?_⟩)
      obtain ⟨e, path⟩ := onPath_of_cpuRun image garbage hist
        (cpuRun_append.trans (bind_ok.2 ⟨m.cpu, hr, h₁⟩))
      have hpc := path.window hs.1
      rw [hs.2.1] at hpc
      exact hpc ▸ path.retired
  · exact .inr (.inl hh)

omit [WideShift] in
theorem commits_of_ticks_store :
    (bootCpu 0 storeProgram).plain.retired.length + 1 ≤
        (loopMachine 224 (bootMachine 0 storeProgram)).cpu.plain.retired.length ∨
      (loopMachine 224 (bootMachine 0 storeProgram)).cpu.plain.hcf = true ∨
      ∃ os₁ os₂ c, bootTicks 224 = os₁ ++ os₂ ∧
        @cpuRun .masked os₁ (bootCpu 0 storeProgram) = .ok c ∧ (latch c).Stuck c.plain ∧
        Walk RobPayload.pc RobPayload.next 0 c.plain.retired (latch c).rm.pc :=
  @commits_of_ticks .masked (imageOf storeProgram) (fun _ _ => 0) 0 (bootTicks 0)
    (bootTicks 224) (bootMachine 0 storeProgram) (loopMachine 224 (bootMachine 0 storeProgram)) 1
    (@cpuRun_boot 0 storeProgram (by decide +kernel)) (cpuLoop_boot (by decide +kernel))
    (by decide +kernel)

/-- No instruction waits for ever: those in the reorder buffer have left it after
    `commitBound` iterations for each of them, unless the loop ends. -/
theorem leaves_of_ticks {os os' : List Schedule} {m m' : Machine}
    (hr : cpuRun os (cpuCreate image garbage hist) = .ok m.cpu) (hl : cpuLoop os' m = .ok m')
    (hn : (latch m.cpu).robs.length * commitBound ≤ os'.length) :
    (∀ i ∈ (latch m.cpu).robs, ∀ j ∈ (latch m'.cpu).robs,
        ((latch m.cpu).rm.robPayload i).seq ≠ ((latch m'.cpu).rm.robPayload j).seq) ∨
      m'.cpu.plain.hcf = true := by
  have live := live_of_cpuRun image garbage hist hr
  have num := (captures_of_cpuRun image garbage hist hr).numbered
  have ctl := live.coherent.conserved.control
  obtain ⟨os₁, os₂, rfl, hrun, -, -, hend⟩ := run_of_cpuLoop (loopAll_true _ _) hl
  have num' := (captures_of_cpuRun image garbage hist
    (cpuRun_append.trans (bind_ok.2 ⟨m.cpu, hr, hrun⟩))).numbered
  rcases hend with rfl | hh
  · rw [List.append_nil] at hn
    obtain ⟨os₁, os₂, c, rfl, h₁, h₂, hend⟩ := commits_of_live live _ hrun hn
    have hnew : m'.cpu.plain.hcf = true ∨ ∀ j ∈ (latch m'.cpu).robs,
        m.cpu.plain.dispatched ≤ ((latch m'.cpu).rm.robPayload j).seq := by
      rcases hend with hlen | hh | hs
      · refine .inr fun j hj => new_of_retired ctl num' hrun ?_ hj
        rw [seqs, List.length_append, List.length_map, List.length_map]
        exact hlen.trans (retired_mono h₂).length_le
      · exact .inl (hcf_mono hh h₂)
      · -- the reorder buffer is empty there
        refine .inr fun j hj => (dispatched_mono h₁).trans
          (new_of_retired (live_run live h₁).coherent.conserved.control num' h₂ ?_ hj)
        rw [seqs, hs.2.1, List.map_nil, List.append_nil, List.length_map]
        exact (retired_mono h₂).length_le
    refine hnew.symm.imp_left fun hnew i hi j hj heq => ?_
    have hlt := num.slot_bound hi
    have hle := hnew j hj
    omega
  · exact .inr hh

omit [WideShift] in
theorem leaves_of_ticks_store :
    (∀ i ∈ (latch (bootCpu 1 storeProgram)).robs,
        ∀ j ∈ (latch (loopMachine 224 (bootMachine 1 storeProgram)).cpu).robs,
        ((latch (bootCpu 1 storeProgram)).rm.robPayload i).seq ≠
          ((latch (loopMachine 224 (bootMachine 1 storeProgram)).cpu).rm.robPayload j).seq) ∨
      (loopMachine 224 (bootMachine 1 storeProgram)).cpu.plain.hcf = true :=
  @leaves_of_ticks .masked (imageOf storeProgram) (fun _ _ => 0) 0 (bootTicks 1)
    (bootTicks 224) (bootMachine 1 storeProgram) (loopMachine 224 (bootMachine 1 storeProgram))
    (@cpuRun_boot 1 storeProgram (by decide +kernel)) (cpuLoop_boot (by decide +kernel))
    (by decide +kernel)

end

end TomasuloCpu
