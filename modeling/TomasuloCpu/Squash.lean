import TomasuloCpu.Conservation

set_option autoImplicit false

/-!
# Squash

Two ticks after a misprediction nothing is in flight but stores, and nothing that
was dispatched before is carried any more.
-/
namespace TomasuloCpu
open Clocked

variable [WideShift] {s s' : Latched} {q p q' : Plain} {n : ℕ}

structure Since (n : ℕ) (s : Latched) (q : Plain) : Prop where
  carriers : ∀ k ∈ s.carriers, n ≤ k.2
  dispatched : n ≤ q.dispatched

namespace Conserved
variable (inv : Conserved s) (st : Step s q p s' q')
include inv st

theorem carriers_subset {k : Key} (h : k ∈ s'.carriers) :
    k ∈ s.carriers ∨ k ∈ s.dispatchKeys q p := by
  rcases inv.control.busClear with ⟨-, hc⟩ | ⟨hb, -, hq⟩ | ⟨hb, -⟩
  · rw [(st.quiet inv.control hc).carriers] at h
    cases h
  · exact .inr ((st.carriers_quiet inv.control hb hq inv.helper).mem_iff.1 h)
  · have hp := (st.carriers inv.control hb inv.helper inv.alu).mem_iff (a := k)
    simp only [List.mem_append] at hp
    exact hp.1 (.inl (.inl h))

theorem since (h : Since n s q) : Since n s' q' where
  carriers := fun k hk => by
    rcases inv.carriers_subset st hk with hk | hk
    · exact h.carriers k hk
    · obtain ⟨d, -, rfl⟩ := List.mem_map.1 hk
      exact h.dispatched
  dispatched := by
    rw [st.dispatched]
    exact Nat.le_add_right_of_le h.dispatched

omit inv in
theorem load_carried {addr : Addr} {size : LsSize} {msg : CdbMessage}
    (h : .load addr size msg ∈ q'.log) : .load addr size msg ∈ q.log ∨ msg.key ∈ s.carriers := by
  refine (st.mem_log.1 h).imp_right ?_
  rintro ⟨i, hr, -, hm, -⟩
  obtain ⟨-, hi, hb, -⟩ := memReady_spec hr
  have hk : msg.key ∈ s.memKeys := by
    rw [memMsg_key hm]
    exact List.mem_map.2 ⟨i, List.mem_filter.2 ⟨hi, hb⟩, rfl⟩
  simp only [Latched.carriers, List.mem_append]
  exact .inr hk

end Conserved

omit [WideShift] in
theorem busGetData_carried {msg : CdbMessage} (h : busGetData s = some msg) :
    msg.key ∈ s.carriers := by
  have hk : msg.key ∈ s.busKeys := by
    simp only [busGetData] at h
    split_ifs at h with hf
    cases h
    simp [Latched.busKeys, Latched.busQueue, hf]
  simp only [Latched.carriers, List.mem_append]
  exact .inl (.inl (.inr hk))

namespace Step
variable (st : Step s q p s' q')
include st

theorem pc_force (hf : s.rm.forcePc.busy = true) : s'.rm.pc = s.rm.forcePc.addr :=
  st.written (r := .pc) (.inl ⟨hf, rfl⟩)

theorem storeSlots_kept (ctl : Control s) (hc : s.rm.robs.clear = true) {i : ℕ}
    (hi : i ∈ memSlots) :
    s'.rr (.storeBusy i) = s.rr (.storeBusy i) ∧ s'.rm.storeReq i = s.rm.storeReq i := by
  have hm := ctl.memClear.trans hc
  have hn : s.issuesStore = none := by
    simp [Latched.issuesStore, Latched.lsqIssue, Latched.lsqPop, ctl.lsqClear.trans hc]
  refine ⟨?_, st.kept (r := .storeReq i) ?_⟩
  · rw [Bool.eq_iff_iff, st.raised]
    simp [Raised, hm, hn, hi]
  · rintro v (⟨h, -⟩ | ⟨payload, h, -⟩)
    · simp [hm] at h
    · simp [hn] at h

theorem lsq_kept (ctl : Control s) (hc : s.rm.robs.clear = true) : s'.lsq = s.lsq ∧
    ∀ slot ∈ s.lsq, (s.rm.lsq.data slot).op = .store →
      s'.rm.lsq.data slot = s.rm.lsq.data slot := by
  have hl := ctl.lsqClear.trans hc
  have hpop : s.lsqPop = none := by simp [Latched.lsqPop, hl]
  have hpush : s.lsqPush = none := by
    have hcm : s.commits = false := by simp [Latched.commits, hc]
    simp [Latched.lsqPush, Latched.loadPick, ctl.rsClear.trans hc, Latched.storesHead, hcm]
  refine ⟨?_, fun slot hs ho => st.kept (r := .lsq (.data slot)) ?_⟩
  · rw [st.lsq_eq ctl.lsqReg ctl.lsq, hpop, hpush]
    simp
  · rintro v (⟨-, -, h, -⟩ | ⟨rfl, -⟩)
    · simp [ho] at h
    · exact ctl.lsq.tail_notMem hs

end Step

/-- What is still there two ticks after a misprediction. -/
structure Squashed (s₀ s₁ s₂ : Latched) : Prop where
  quiet : Quiet s₂
  pc : s₂.rm.pc = robAddr s₀.head
  lsq : s₂.lsq = s₁.lsq
  lsqStores : ∀ slot ∈ s₁.lsq, (s₁.rm.lsq.data slot).op = .store →
    s₂.rm.lsq.data slot = s₁.rm.lsq.data slot
  storeSlots : ∀ i ∈ memSlots, s₁.rr (.storeBusy i) = true →
    s₂.rr (.storeBusy i) = true ∧ s₂.rm.storeReq i = s₁.rm.storeReq i

theorem squashed {s₁ s₂ : Latched} {q₁ p₁ q₂ : Plain} (ctl : Control s) (hf : s.flushes = true)
    (st : Step s q p s₁ q₁) (st₁ : Step s₁ q₁ p₁ s₂ q₂) : Squashed s s₁ s₂ := by
  have ctl₁ := st.control ctl
  have hc : s₁.rm.robs.clear = true := st.robsClear.trans hf
  obtain ⟨hl, hd⟩ := st₁.lsq_kept ctl₁ hc
  exact
    { quiet := st₁.quiet ctl₁ hc
      pc := (st₁.pc_force (ctl₁.forcePc.trans hc)).trans (st.forcePc_addr hf)
      lsq := hl
      lsqStores := hd
      storeSlots := fun i hi hb => by
        obtain ⟨h₁, h₂⟩ := st₁.storeSlots_kept ctl₁ hc hi
        exact ⟨h₁.trans hb, h₂⟩ }

section
variable {image : MemData} {garbage : ℤ → ℤ → ℤ} {hist : ℤ}

/-- Two ticks after a misprediction, in any order of the callbacks, only stores are
    in flight, and no message or load of an instruction that was dispatched before
    is delivered later. -/
theorem squash_complete {os os' : List Schedule} {o o₁ : Schedule} {c c₁ c₂ c' : Cpu}
    (hr : cpuRun os (cpuCreate image garbage hist) = .ok c) (hf : (latch c).flushes = true)
    (h : cpuTick o c = .ok c₁) (h₁ : cpuTick o₁ c₁ = .ok c₂) (hr' : cpuRun os' c₂ = .ok c') :
    Squashed (latch c) (latch c₁) (latch c₂) ∧
      (∀ msg, busGetData (latch c') = some msg → c₂.plain.dispatched ≤ msg.seq) ∧
      ∀ addr size msg, .load addr size msg ∈ c'.plain.log →
        .load addr size msg ∈ c₂.plain.log ∨ c₂.plain.dispatched ≤ msg.seq := by
  have inv := conserved_of_cpuRun image garbage hist hr
  obtain ⟨p, st⟩ := step_of_cpuTick h
  obtain ⟨p₁, st₁⟩ := step_of_cpuTick h₁
  have hs := squashed inv.control hf st st₁
  have h0 : Conserved (latch c₂) ∧ Since c₂.plain.dispatched (latch c₂) c₂.plain ∧
      ∀ addr size msg, .load addr size msg ∈ c₂.plain.log →
        .load addr size msg ∈ c₂.plain.log ∨ c₂.plain.dispatched ≤ msg.seq := by
    refine ⟨(inv.step st).step st₁, ⟨?_, Nat.le_refl _⟩, fun _ _ _ => .inl⟩
    rw [hs.quiet.carriers]
    exact fun k hk => by cases hk
  have hrun := cpuRun_induction (I := fun s q => Conserved s ∧ Since c₂.plain.dispatched s q ∧
    ∀ addr size msg, .load addr size msg ∈ q.log →
      .load addr size msg ∈ c₂.plain.log ∨ c₂.plain.dispatched ≤ msg.seq) h0
    (fun {s q p s' q'} hi st => ⟨hi.1.step st, hi.1.since st hi.2.1, fun addr size msg hm => by
      rcases Conserved.load_carried st hm with hm | hm
      · exact hi.2.2 addr size msg hm
      · exact .inr (hi.2.1.carriers _ hm)⟩) hr'
  exact ⟨hs, fun msg hm => hrun.2.1.carriers _ (busGetData_carried hm), hrun.2.2⟩

end

omit [WideShift] in
theorem squash_complete_branch : Squashed (latch (bootCpu 5 branchProgram))
    (latch (bootCpu 6 branchProgram)) (latch (bootCpu 7 branchProgram)) :=
  (@squash_complete .masked _ _ _ _ [] _ _ _ _ _ _ (cpuRun_boot (by decide +kernel))
    (by decide +kernel) (cpuTick_boot (by decide +kernel)) (cpuTick_boot (by decide +kernel))
    rfl).1

end TomasuloCpu
