import TomasuloCpu.Liveness

set_option autoImplicit false

/-!
# Retired stores reach memory

The load-store queue is served whatever the rest of the CPU does: a flush delays
it by a tick, and no flush follows another at once.
-/
namespace TomasuloCpu
open Clocked Progress

namespace Latched
variable (s : Latched)

def queued : List (Option (Addr × Word × LsSize)) :=
  s.lsq.map fun slot => (s.rm.lsq.data slot).store?

def storeWait : ℕ := (s.queued.takeWhile Option.isNone).length

def drainRank : ℕ :=
  4 * s.storeWait + (s.storeRank 0 + s.storeRank 1 + s.storeRank 2) + s.lockRank

end Latched

def issueBound : ℕ := 72

def performBound : ℕ := 6

theorem takeWhile_append_of_some {α : Type} {l r : List (Option α)}
    (h : ¬∀ x ∈ l, x.isNone = true) :
    (l ++ r).takeWhile Option.isNone = l.takeWhile Option.isNone := by
  rw [List.takeWhile_append, if_neg]
  intro hl
  refine h fun x hx => ?_
  rw [← (List.takeWhile_prefix Option.isNone).eq_of_length hl] at hx
  exact List.mem_takeWhile_imp hx

variable [WideShift] {s s' : Latched} {q p q' : Plain}

omit [WideShift] in
theorem lsqStores_eq_nil_iff : s.lsqStores = [] ↔ ∀ x ∈ s.queued, x.isNone = true := by
  simp [Latched.lsqStores, Latched.queued, List.filterMap_eq_nil_iff]

omit [WideShift] in
theorem lsq_nil_of_empty (h : queueEmpty s.rm.lsq = true) : s.lsq = [] := by
  have h : s.rm.lsq.head = s.rm.lsq.tail := by simpa [queueEmpty] using h
  unfold Latched.lsq queueForeach
  simp [lsQueueCapacity, queueForeachFrom, queueVisit, h]

omit [WideShift] in
theorem Live.drainRank_le (live : Live s q) : s.drainRank ≤ 35 := by
  have hlsq := lsq_length_lt live.coherent.conserved.control
  have hwait : s.storeWait ≤ s.lsq.length :=
    (List.takeWhile_sublist _).length_le.trans_eq (List.length_map _)
  have h0 := live.stores.storeRank_le (i := 0) (by decide)
  have h1 := live.stores.storeRank_le (i := 1) (by decide)
  have h2 := live.stores.storeRank_le (i := 2) (by decide)
  have hlock : s.lockRank ≤ 1 := by
    unfold Latched.lockRank
    split <;> omega
  simp only [lsQueueCapacity, Int.reduceToNat] at hlsq
  unfold Latched.drainRank
  omega

namespace Step
variable (st : Step s q p s' q') (ctl : Control s)
include st ctl

theorem queued_clear (hc : s.rm.robs.clear = true) : s'.queued = s.queued := by
  rw [Latched.queued, Latched.queued, (st.lsq_kept ctl hc).1]
  refine List.map_congr_left fun slot hs => ?_
  rcases st.cases (.lsq (.data slot)) with ⟨v, ⟨-, -, ho, rfl⟩ | ⟨rfl, -⟩, hv⟩ | ⟨-, hk⟩
  · have hv : s'.rm.lsq.data slot = _ := hv
    simp [hv, LsQueuePayload.store?, ho]
  · exact absurd hs ctl.lsq.tail_notMem
  · have hk : s'.rm.lsq.data slot = s.rm.lsq.data slot := hk
    rw [hk]

theorem queued_eq (hc : s.rm.robs.clear = false) :
    s.lsqPop.toList.map (fun slot => (s.rm.lsq.data slot).store?) ++ s'.queued =
      s.queued ++ s.lsqPush.toList.map LsQueuePayload.store? := by
  have h := congrArg (List.map LsQueuePayload.store?)
    (st.lsqPayloads ctl (ctl.lsqClear.trans hc))
  rwa [List.map_append, List.map_append, List.map_map, List.map_map, List.map_map] at h

omit ctl in
theorem lockRank_of_issues (h : s.issuesStore = none) : s'.lockRank ≤ s.lockRank ∧
    (s.rr .lockStall = true → s.rm.lockSignal = true → s'.lockRank < s.lockRank) := by
  have hle := st.lockRank_le
  rw [h] at hle
  unfold Latched.lockRank at *
  cases hb : s.rr .lockStall <;> cases hs : s.rm.lockSignal <;> simp_all

end Step

namespace Live
variable (live : Live s q) (st : Step s q p s' q')
include live st

theorem drainRank_clear (hc : s.rm.robs.clear = true) : s'.drainRank ≤ s.drainRank := by
  have ctl := live.coherent.conserved.control
  have hslot : ∀ i ∈ memSlots, s'.storeRank i = s.storeRank i := fun i hi => by
    have h := st.storeSlots_kept ctl hc hi
    rw [Latched.storeRank, Latched.storeRank, h.1, h.2]
  have hnone : s.issuesStore = none := by
    simp [Latched.issuesStore, Latched.lsqIssue, Latched.lsqPop, ctl.lsqClear.trans hc]
  have hlock := (st.lockRank_of_issues hnone).1
  rw [Latched.drainRank, Latched.drainRank, Latched.storeWait, Latched.storeWait,
    st.queued_clear ctl hc, hslot 0 (by decide), hslot 1 (by decide), hslot 2 (by decide)]
  omega

omit [WideShift] st in
/-- Where the queue is locked, memory works on a store or the lock is given up. -/
theorem locked (hb : s.rr .lockStall = true) : s.rm.lockSignal = true ∨ 0 < s.storesBusy := by
  refine or_iff_not_imp_left.2 fun hs => ?_
  have hp : q.performed = [] := by
    by_contra hn
    exact hs (live.lock.signal.2 hn)
  obtain ⟨i, hi⟩ := List.exists_mem_of_ne_nil _ (live.lockWaits hb hp)
  have hF : i ∈ q.inFlight := by rwa [Plain.inFlight, hp]
  exact List.length_pos_of_mem (List.mem_filter.2 ((live.stores.busy i).1 hF))

/-- Otherwise a load leaves the queue, a store is issued or memory works on one. -/
theorem drainRank_lt (hc : s.rm.robs.clear = false) (hs : s.lsqStores ≠ []) :
    q.issued.length < q'.issued.length ∨ s'.drainRank < s.drainRank := by
  have ctl := live.coherent.conserved.control
  have hstore := st.storeRank_le live.stores (ctl.memClear.trans hc)
  have hqueue := st.queued_eq ctl hc
  rw [Ne, lsqStores_eq_nil_iff] at hs
  cases hi : s.issuesStore with
  | some payload =>
    obtain ⟨i, hslot⟩ := Option.isSome_iff_exists.1 (st.storeSlot (by rw [hi]; rfl))
    refine .inl ?_
    rw [st.issued, Latched.issued, hi, hslot, List.length_append]
    exact Nat.lt_succ_self _
  | none =>
    have hlock := st.lockRank_of_issues hi
    have hpop := live.stores.pop_store ctl
    rw [hi] at hstore hpop
    simp only [Option.toList_none, List.length_nil, Nat.mul_zero, Nat.add_zero] at hstore
    refine .inr ?_
    unfold Latched.drainRank Latched.storeWait
    cases hp : s.lsqPop with
    | some slot =>
      have hload : (s.rm.lsq.data slot).store? = none := by
        rw [hp] at hpop
        simpa using hpop
      rw [hp, Option.toList_some, List.map_singleton, hload] at hqueue
      cases hl : s.queued with
      | nil => simp [hl] at hs
      | cons x rest =>
        rw [hl, List.cons_append, List.nil_append, List.cons_append, List.cons.injEq] at hqueue
        obtain ⟨rfl, hrest⟩ := hqueue
        have hs' : ¬∀ y ∈ rest, y.isNone = true := fun h => hs (by simpa [hl] using h)
        rw [hrest, takeWhile_append_of_some hs']
        simp only [List.takeWhile_cons, Option.isNone_none, ↓reduceIte, List.length_cons]
        omega
    | none =>
      rw [hp, Option.toList_none, List.map_nil, List.nil_append] at hqueue
      rw [hqueue, takeWhile_append_of_some hs]
      have hstall : s.rr .lockStall = true := by
        rcases lsqPop_eq_none_iff.1 hp with h | h | h
        · rw [ctl.lsqClear, hc] at h
          cases h
        · exact h
        · exact absurd (by simp [Latched.queued, lsq_nil_of_empty h]) hs
      rcases live.locked hstall with h | h
      · have := hlock.2 hstall h
        omega
      · have := hlock.1
        omega

theorem performs_last (hc : s.rm.robs.clear = false) {n : ℕ} (hn : n < q.issued.length) :
    n < q'.performed.length ∨ ∃ i, q.issued[n]? = some i ∧ (s.rm.storeReq i).ticksRemaining = 2 ∧
      (s'.rm.storeReq i).ticksRemaining = 1 := by
  have hm := live.coherent.conserved.control.memClear.trans hc
  obtain ⟨rest, hF, hrest⟩ := live.stores.performs_eq hm
  have hle := live.stores.le
  have hlen := congrArg List.length hF
  rw [Plain.inFlight, List.length_drop, List.length_append] at hlen
  rw [st.performed, List.length_append, List.length_map]
  rcases hrest with rfl | ⟨i, rfl, ht⟩
  · rw [List.length_nil] at hlen
    exact .inl (by omega)
  · rw [List.length_singleton] at hlen
    refine or_iff_not_imp_left.2 fun hlt => ⟨i, ?_, ht, ?_⟩
    · have hget : q.inFlight[s.performs.length]? = some i := by simp [hF]
      rw [Plain.inFlight, List.getElem?_drop] at hget
      rwa [show n = q.performed.length + s.performs.length by omega]
    · have hb := (live.stores.busy i).1 (by simp [hF])
      have hreq : s'.rm.storeReq i =
          { s.rm.storeReq i with ticksRemaining := (s.rm.storeReq i).ticksRemaining - 1 } :=
        st.written (r := .storeReq i) (.inl ⟨hm, hb.1, hb.2, rfl⟩)
      rw [hreq, ht]
      rfl

end Live

namespace Step
variable (st : Step s q p s' q')
include st

theorem clear_of_clear (hc : s.rm.robs.clear = true) : s'.rm.robs.clear = false := by
  rw [st.robsClear, ← Bool.not_eq_true]
  intro hf
  rw [Latched.clear_of_flushes hf] at hc
  cases hc

theorem retiredStores_prefix : q.retiredStores <+: q'.retiredStores := by
  rw [Plain.retiredStores, Plain.retiredStores, st.retired, List.filterMap_append]
  exact List.prefix_append _ _

theorem issued_prefix : q.issued <+: q'.issued := by
  rw [st.issued]
  exact List.prefix_append _ _

theorem performed_prefix : q.performed <+: q'.performed := by
  rw [st.performed]
  exact List.prefix_append _ _

end Step

omit [WideShift] in
theorem StoresOk.issued_length (so : StoresOk s q) :
    q.issued.length + s.lsqStores.length = q.retiredStores.length := by
  have hle := so.le
  have h := congrArg List.length so.order
  rw [List.length_append, List.length_append, List.length_map, Plain.inFlight,
    List.length_drop] at h
  omega

section
variable {c c' : Cpu} {os : List Schedule} {n : ℕ}

theorem issues_within (live : Live (latch c) c.plain) (hn : n ≤ c.plain.retiredStores.length) :
    Within Ticks (fun c' => c.plain.issued.length < c'.plain.issued.length ∨
      n ≤ c'.plain.issued.length) issueBound c := by
  refine Within.rank_pause
    (I := fun a => Live (latch a) a.plain ∧ n ≤ a.plain.retiredStores.length ∧
      c.plain.issued.length ≤ a.plain.issued.length)
    (fun a => (latch a).drainRank) (fun a => (latch a).rm.robs.clear) ?_ ?_
    ⟨live, hn, Nat.le_refl _⟩ ?_
  · rintro a b ⟨ha, hr, hi⟩ ⟨o, h⟩
    obtain ⟨p, st⟩ := step_of_cpuTick h
    exact ⟨ha.step st, hr.trans st.retiredStores_prefix.length_le,
      hi.trans st.issued_prefix.length_le⟩
  · rintro a b ⟨ha, hr, hi⟩ hp ⟨o, h⟩
    obtain ⟨p, st⟩ := step_of_cpuTick h
    cases hc : (latch a).rm.robs.clear with
    | true =>
      refine .inr ?_
      rw [if_pos rfl]
      exact ⟨ha.drainRank_clear st hc, st.clear_of_clear hc⟩
    | false =>
      have hs : (latch a).lsqStores ≠ [] := by
        intro hs
        have hlen := ha.stores.issued_length
        rw [hs, List.length_nil] at hlen
        exact hp (.inr (by omega))
      rw [if_neg Bool.false_ne_true]
      exact (ha.drainRank_lt st hc hs).imp_left fun h => .inl (by omega)
  · have := live.drainRank_le
    unfold issueBound
    omega

theorem performs_within (live : Live (latch c) c.plain) (hn : n < c.plain.issued.length) :
    Within Ticks (fun c' => n < c'.plain.performed.length) performBound c := by
  by_cases hdone : n < c.plain.performed.length
  · exact .now hdone
  have hflight : ∀ {a : Cpu}, a.plain.issued[n]? = some c.plain.issued[n] →
      ¬n < a.plain.performed.length → c.plain.issued[n] ∈ a.plain.inFlight := by
    intro a hget hnp
    refine List.mem_of_getElem? (i := n - a.plain.performed.length) ?_
    rw [Plain.inFlight, List.getElem?_drop, Nat.add_sub_cancel' (by omega), hget]
  refine Within.rank_pause
    (I := fun a => Live (latch a) a.plain ∧ a.plain.issued[n]? = some c.plain.issued[n])
    (fun a => ((latch a).rm.storeReq c.plain.issued[n]).ticksRemaining.toNat)
    (fun a => (latch a).rm.robs.clear) ?_ ?_ ⟨live, List.getElem?_eq_getElem hn⟩ ?_
  · rintro a b ⟨ha, hget⟩ ⟨o, h⟩
    obtain ⟨p, st⟩ := step_of_cpuTick h
    refine ⟨ha.step st, ?_⟩
    rw [st.issued, List.getElem?_append_left (List.getElem?_eq_some_iff.1 hget).1, hget]
  · rintro a b ⟨ha, hget⟩ hp ⟨o, h⟩
    obtain ⟨p, st⟩ := step_of_cpuTick h
    cases hc : (latch a).rm.robs.clear with
    | true =>
      have ctl := ha.coherent.conserved.control
      have hslot := ((ha.stores.busy _).1 (hflight hget hp)).1
      refine .inr ?_
      rw [if_pos rfl, (st.storeSlots_kept ctl hc hslot).2]
      exact ⟨Nat.le_refl _, st.clear_of_clear hc⟩
    | false =>
      rw [if_neg Bool.false_ne_true]
      refine (ha.performs_last st hc (List.getElem?_eq_some_iff.1 hget).1).imp_right ?_
      rintro ⟨i, hi, ht, ht'⟩
      obtain rfl : c.plain.issued[n] = i := Option.some.inj (hget.symm.trans hi)
      rw [ht, ht']
      decide
  · have := live.stores.ticks_bounds (hflight (List.getElem?_eq_getElem hn) hdone)
    simp only [memTicks] at this
    unfold performBound
    omega

theorem stores_mono (hr : cpuRun os c = .ok c') :
    c.plain.retiredStores <+: c'.plain.retiredStores ∧
      c.plain.performed <+: c'.plain.performed :=
  cpuRun_induction (I := fun _ q => c.plain.retiredStores <+: q.retiredStores ∧
    c.plain.performed <+: q.performed) ⟨List.prefix_refl _, List.prefix_refl _⟩
    (fun h st => ⟨h.1.trans st.retiredStores_prefix, h.2.trans st.performed_prefix⟩) hr

theorem performs_of_run (live : Live (latch c) c.plain) (hr : cpuRun os c = .ok c')
    (hn : (latch c).lsqStores.length * issueBound + performBound ≤ os.length) :
    c.plain.retiredStores.length ≤ c'.plain.performed.length := by
  cases hN : c.plain.retiredStores.length with
  | zero => exact Nat.zero_le _
  | succ n =>
    have hcount := Within.count (R := Ticks) (I := fun a => Live (latch a) a.plain ∧
        n + 1 ≤ a.plain.retiredStores.length) (Q := fun a => n + 1 ≤ a.plain.issued.length)
      (fun a => a.plain.issued.length)
      (fun a b ha h => ⟨live_step ha.1 h, by
        obtain ⟨o, h⟩ := h
        obtain ⟨p, st⟩ := step_of_cpuTick h
        exact ha.2.trans st.retiredStores_prefix.length_le⟩)
      (fun a ha => issues_within ha.1 ha.2) ⟨live, hN.ge⟩ (latch c).lsqStores.length
    have hlen := live.stores.issued_length
    have hissued : Within Ticks (fun a => n + 1 ≤ a.plain.issued.length) _ c :=
      hcount.mono (Nat.le_refl _) fun a h => h.elim (fun h => by omega) id
    have hperf := (hissued.invariant (fun _ _ => live_step) live).bind
      (Q := fun a => n < a.plain.performed.length) fun a ha => performs_within ha.2 ha.1
    obtain ⟨os₁, os₂, c₁, rfl, h₁, h₂, hlt⟩ := passes_of_within hperf hr hn
    exact hlt.trans_le (stores_mono h₂).2.length_le

end

section
variable (image : MemData) (garbage : ℤ → ℤ → ℤ) (hist : ℤ)

/-- Every retired store is performed: within `issueBound` iterations for each store in
    the queue and `performBound` for those in flight, unless the loop ends. -/
theorem performs_of_ticks {os os' : List Schedule} {m m' : Machine}
    (hr : cpuRun os (cpuCreate image garbage hist) = .ok m.cpu) (hl : cpuLoop os' m = .ok m')
    (hn : (latch m.cpu).lsqStores.length * issueBound + performBound ≤ os'.length) :
    m.cpu.plain.retiredStores <+: m'.cpu.plain.performed ∨ m'.cpu.plain.hcf = true := by
  have live := live_of_cpuRun image garbage hist hr
  obtain ⟨os₁, os₂, rfl, hrun, -, -, hend⟩ := run_of_cpuLoop (loopAll_true _ _) hl
  rcases hend with rfl | hh
  · rw [List.append_nil] at hn
    refine .inl ?_
    have hperf := performs_of_run live hrun hn
    have hmono := stores_mono hrun
    have live' := live_run live hrun
    have hpre : m'.cpu.plain.performed <+: m'.cpu.plain.retiredStores := by
      rw [← live'.stores.order, List.append_assoc]
      exact List.prefix_append _ _
    exact List.prefix_of_prefix_length_le hmono.1 hpre hperf
  · exact .inr hh

omit [WideShift] in
/-- Two stores have retired and none has been performed. -/
theorem performs_of_ticks_three :
    (bootCpu 4 threeStoresProgram).plain.retiredStores <+:
        (loopMachine 600 (bootMachine 4 threeStoresProgram)).cpu.plain.performed ∨
      (loopMachine 600 (bootMachine 4 threeStoresProgram)).cpu.plain.hcf = true :=
  @performs_of_ticks .masked (imageOf threeStoresProgram) (fun _ _ => 0) 0 (bootTicks 4)
    (bootTicks 600) (bootMachine 4 threeStoresProgram)
    (loopMachine 600 (bootMachine 4 threeStoresProgram))
    (@cpuRun_boot 4 threeStoresProgram (by decide +kernel)) (cpuLoop_boot (by decide +kernel))
    (by decide +kernel)

end

end TomasuloCpu
