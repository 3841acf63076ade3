import TomasuloCpu.Accesses
import TomasuloCpu.SingleWriter
import TomasuloCpu.WrongPath

set_option autoImplicit false

/-!
# Ticks that get through

From a reachable state a tick fails at an access out of bounds, in the default branch
of an executor or where the two sides of the load-store queue meet, and nowhere else:
no queue is popped when it is empty or pushed when it is full, and no loop over slots
runs past its array.
-/
namespace TomasuloCpu
open Clocked

/-- The next tick gets to the failing default branch of `_mem_set_sz`. -/
def Latched.StoresUnknown (s : Latched) : Prop :=
  s.rm.memClear = false ∧ ∃ i ∈ memSlots, memStoreDone s i = true ∧
    ¬Storable (s.rm.storeReq i).size

def Latched.RetiresStorable (s : Latched) : Prop :=
  s.storesHead = true → Storable s.head.size

instance (s : Latched) : Decidable s.RetiresStorable := inferInstanceAs (Decidable (_ → _))

def Plain.Storable (q : Plain) : Prop := ∀ w ∈ q.retiredStores, TomasuloCpu.Storable w.2.2

section
variable {s : Latched} {f : Fault}

theorem fail_notMem_bhTick (h : ℕ) : .fail f ∉ bhTick h s := by
  intro hf
  rcases ofHelper_bhTick hf with hf | ⟨-, v, hf⟩
  · exact hf
  · cases hf

theorem fail_notMem_onmsg (msg : CdbMessage) (l : Listener) : .fail f ∉ l.onmsg s msg := by
  cases l with
  | robUnit => simp [Listener.onmsg, robUnitOnmsg]
  | rs id => simp [Listener.onmsg, rsOnmsg, rsCapture]
  | cpuDebug => simp [Listener.onmsg]

theorem fail_notMem_busTick {ls : List Listener} :
    .fail f ∉ busTick (Listener.onmsg s) ls s := by
  unfold busTick
  split_ifs with hc
  · simp
  · cases busGetData s with
    | none => simp
    | some msg => simp [fail_notMem_onmsg]

/-- A queue that is popped is not empty, and there is a slot for what is issued. -/
theorem fail_notMem_lsQueueTick (hl : s.loadSlot.isSome = true) (hs : s.storeSlot.isSome = true) :
    .fail f ∉ lsQueueTick s := by
  obtain ⟨i, hi⟩ := Option.isSome_iff_exists.1 hl
  obtain ⟨j, hj⟩ := Option.isSome_iff_exists.1 hs
  intro hf
  rcases mem_lsQueueTick.1 hf with ⟨-, slot, -, -, he⟩ | ⟨slot, -, he⟩ | ⟨data, -, he⟩ |
    ⟨data, -, he | he⟩
  · cases he
  · cases he
  · rw [memRequestLoad] at he
    rw [Latched.loadSlot] at hi
    simp [hi] at he
  · rw [memRequestStore] at he
    rw [Latched.storeSlot] at hj
    simp [hj] at he
  · cases he

theorem fail_notMem_robUnitTick : .fail f ∉ robUnitTick s := by
  intro hf
  rcases mem_robUnitTick.1 hf with ⟨-, he⟩ | ⟨-, he⟩ | ⟨-, -, he⟩ | ⟨-, -, he⟩ | ⟨-, hm⟩ |
    ⟨-, he | he⟩ | ⟨-, ⟨-, he⟩ | he | he | he⟩ | ⟨-, -, he | he⟩ <;> try cases he
  simp [mem_robFlush] at hm

theorem fail_mem_memStoreStep {i : ℕ} (h : .fail f ∈ memStoreStep s i) :
    f = .assertion ∧ memStoreDone s i = true ∧ ¬Storable (s.rm.storeReq i).size := by
  rcases (mem_memStoreStep.1 h).2 with he | ⟨hd, ⟨hn, he⟩ | ⟨-, he | he | he⟩⟩
  · cases he
  · cases he
    refine ⟨rfl, hd, fun hs => ?_⟩
    rw [← @memSetSz_isSome_iff (fun _ => 0) (s.rm.storeReq i).addr (s.rm.storeReq i).value, hn]
      at hs
    cases hs
  · cases he
  · cases he
  · cases he

variable [WideShift] {p : Plain}

theorem eq_assertion_of_aluTick {a : ℕ} (h : .fail f ∈ aluTick a s) : f = .assertion := by
  rcases ofAlu_aluTick h with h | h | ⟨h, -⟩
  · exact h.elim
  · exact h.elim
  · cases h
    rfl

theorem eq_assertion_of_rsUnitTick (h : .fail f ∈ rsUnitTick s) : f = .assertion := by
  rcases mem_rsUnitTick.1 h with ⟨-, he | ⟨id, -, he⟩⟩ | ⟨a, rs, -, he | he⟩ | ⟨a, rs, -, he⟩ |
    ⟨rs, -, ⟨-, he⟩ | ⟨-, he | he | he | he⟩⟩ | ⟨rs, -, he⟩ | ⟨rs, -, he | he⟩ <;> cases he
  rfl

theorem eq_assertion_of_instUnitTick (h : .fail f ∈ instUnitTick s p) : f = .assertion := by
  rcases mem_instUnitTick.1 h with ⟨-, he | he⟩ | ⟨rs, inst, hd, he | he | hm | he⟩ <;>
    try cases he
  rcases mem_instDispatch.1 hm with he | he | he | he | ⟨-, -, he⟩ | ⟨x, -, hm⟩ | ⟨-, he⟩ | he <;>
    try cases he
  · obtain ⟨route, -, he⟩ := mem_instRegLog.1 hm
    cases he
  · rfl

omit [WideShift] in
theorem eq_assertion_of_memLoads {data : MemData} (h : .fail f ∈ (memLoads s data).effects) :
    f = .assertion := by
  rw [memLoads, memLoadStep_foldl data memSlots _ memSlots_nodup] at h
  simp only [Bool.false_eq_true, ↓reduceIte, List.nil_append, List.mem_flatMap] at h
  obtain ⟨i, -, h⟩ := h
  split at h
  · rcases List.mem_cons.1 h with h | h
    · cases h
    · split at h
      · rcases mem_memSendEffects.1 h with h | ⟨b, -, ⟨-, h⟩ | ⟨msg, -, h | h⟩⟩
        · exact (ofHelper_bhAcquire h).elim
        · cases h
          rfl
        · cases h
        · cases h
      · cases h
  · cases h

end

section
variable [WideShift] {o : Schedule} {c : Cpu} {f : Fault}

theorem fail_cases (live : Live (latch c) c.plain) {cb : Callback} (hcb : cb ∈ Callback.registered)
    (h : .fail f ∈ cb.tickEffects o.listeners (latch c) c.plain (cpuPlainAt o c .instUnitTick)) :
    f = .assertion ∧ (Aborts o c ∨ (latch c).StoresUnknown) := by
  cases cb with
  | busTick => exact (fail_notMem_busTick h).elim
  | bhTick a => exact (fail_notMem_bhTick a h).elim
  | memTick =>
    change .fail f ∈ memTick (latch c) c.plain.data at h
    unfold memTick at h
    split_ifs at h with hc
    · simp at h
    · have hc : (latch c).rm.memClear = false := by simpa using hc
      rcases List.mem_append.1 h with h | h
      · rcases List.mem_append.1 h with h | h
        · obtain rfl := eq_assertion_of_memLoads h
          exact ⟨rfl, .inl (.inr (.inr (.inl ⟨hc, h⟩)))⟩
        · obtain ⟨i, hi, h⟩ := List.mem_flatMap.1 h
          obtain ⟨rfl, hd, hn⟩ := fail_mem_memStoreStep h
          exact ⟨rfl, .inr ⟨hc, i, hi, hd, hn⟩⟩
      · simp at h
  | regFileTick =>
    change .fail f ∈ regFileTick (latch c) at h
    unfold regFileTick at h
    split_ifs at h <;> simp at h
  | queueTick x => cases x <;> simp [Callback.tickEffects, Callback.effects, liftLsq, liftRobs] at h
  | busyWaitTick =>
    change .fail f ∈ busyWaitTick (latch c) at h
    unfold busyWaitTick at h
    split_ifs at h <;> simp [busyWait] at h
  | lsQueueTick =>
    exact (fail_notMem_lsQueueTick live.loads.loadSlot_isSome live.stores.storeSlot_isSome h).elim
  | aluTick a =>
    obtain rfl := eq_assertion_of_aluTick h
    exact ⟨rfl, .inl (.inl ⟨a, aluTick_mem_registered.1 hcb, h⟩)⟩
  | rsUnitTick =>
    obtain rfl := eq_assertion_of_rsUnitTick h
    exact ⟨rfl, .inl (.inr (.inl h))⟩
  | instUnitTick =>
    obtain rfl := eq_assertion_of_instUnitTick h
    exact ⟨rfl, .inl (.inr (.inr (.inr h)))⟩
  | robUnitTick => exact (fail_notMem_robUnitTick h).elim
  | cpuDebug => cases h

/-- Where the two sides of the load-store queue do not meet, a tick fails in a default
    branch only. -/
theorem error_of_cpuTick (live : Live (latch c) c.plain) (ha : (latch c).PushesApart)
    (h : cpuTick o c = .error f) :
    f = .assertion ∧ (Aborts o c ∨ (latch c).StoresUnknown) := by
  have herr := h
  rw [cpuTick, run_eq o.nodup] at herr
  rcases applyAll_error herr with rfl | hm
  · exact absurd h (cpuTick_ne_doubleWrite live.coherent.conserved live.stores ha)
  · obtain ⟨cb, hcb, he⟩ := mem_effectsOf.1 hm
    exact fail_cases live hcb he

theorem cpuTick_passes (live : Live (latch c) c.plain) (ha : (latch c).PushesApart)
    (hab : ¬Aborts o c) (hs : ¬(latch c).StoresUnknown) : ∃ c', cpuTick o c = .ok c' := by
  cases ht : cpuTick o c with
  | ok c' => exact ⟨c', rfl⟩
  | error f => exact ((error_of_cpuTick live ha ht).2.elim hab hs).elim

theorem passes_of_cpuTick {c' : Cpu} (h : cpuTick o c = .ok c') :
    ¬Aborts o c ∧ ¬(latch c).StoresUnknown := by
  have hno := (Tick.of_cpuTick h).noFail
  constructor
  · rintro (⟨a, ha, he⟩ | he | ⟨hc, he⟩ | he)
    · exact hno (.aluTick a) (aluTick_mem_registered.2 ha) _ he
    · exact hno .rsUnitTick (by decide) _ he
    · refine hno .memTick (by decide) .assertion ?_
      change .fail .assertion ∈ memTick (latch c) c.plain.data
      rw [memTick, if_neg (by simp [hc])]
      exact List.mem_append_left _ (List.mem_append_left _ he)
    · exact hno .instUnitTick (by decide) _ he
  · rintro ⟨hc, i, hi, hd, hn⟩
    refine memStoreDone_ok hno hi hc hd ?_
    rw [← Option.not_isSome_iff_eq_none, memSetSz_isSome_iff]
    exact hn

end

section
variable [WideShift] {s s' : Latched} {q p q' : Plain}

omit [WideShift] in
theorem StoresOk.not_storesUnknown (ok : StoresOk s q) (hq : q.Storable) : ¬s.StoresUnknown := by
  rintro ⟨-, i, hi, hd, hn⟩
  exact hn (hq _ (ok.done_retired hi hd))

omit [WideShift] in
theorem pushesApart_of_foremost (inv : Conserved s)
    (h : ∀ rs, s.loadPick = some rs → s.Foremost (robSlot (s.rm.rsPayload rs).dest)) :
    s.PushesApart := by
  by_contra ha
  obtain ⟨hs, rs, hl⟩ := loadPick_of_not_pushesApart inv.control ha
  obtain ⟨hr, ho⟩ := storesHead_iff.1 hs
  obtain ⟨hm, hb⟩ := freed_busy (mem_freed.2 (.inr (.inl hl)))
  have hunready := (inv.rs_open hm hb).2.1
  have hne : s.rm.robs.head ≠ robSlot (s.rm.rsPayload rs).dest := by
    intro he
    have hready := (head_of_retires inv.control hr).2.1
    rw [he, hunready] at hready
    cases hready
  refine h rs hl s.rm.robs.head ?_ ho
  rw [Latched.older, robs_head inv.control (Latched.commits_of_retires hr)]
  simp [hne]

end

section
variable [WideShift] (image : MemData) (garbage : ℤ → ℤ → ℤ) {hist : ℤ} (hh : InTable hist)
include hh

/-- From a reachable state a tick gets through, in whatever order, if and only if it
    reads and writes inside memory, no default branch of an executor fails and a store
    and a load do not meet at the load-store queue. -/
theorem gets_through_iff {os : List Schedule} {c : Cpu}
    (hr : cpuRun os (cpuCreate image garbage hist) = .ok c) (o : Schedule) :
    (∃ c', cpuTickInside o c = .ok c') ↔
      (latch c).ReadsInside ∧ (latch c).StoresInside ∧ (latch c).PushesApart ∧ ¬Aborts o c ∧
        ¬(latch c).StoresUnknown := by
  have live := live_of_cpuRun image garbage hist hr
  have trained := trained_of_cpuRun (trained_cpuCreate image garbage hist)
    (coherent_cpuCreate image garbage hist) hr
  have hp := trained.predictsInside live.coherent.conserved.control hh
    (cpuPlainAt_bp (o := o) .instUnitTick)
  unfold cpuTickInside
  constructor
  · rintro ⟨c', ht⟩
    split_ifs at ht with hin
    refine ⟨hin.1, hin.2.1, ?_, passes_of_cpuTick ht⟩
    by_contra ha
    exact cpuTick_ne_ok live.coherent.conserved ha c' ht
  · rintro ⟨hreads, hstores, ha, hab, hs⟩
    rw [if_pos ⟨hreads, hstores, hp⟩]
    exact cpuTick_passes live ha hab hs

omit [WideShift] hh in
/-- A store retires while the load behind it is ready. -/
theorem gets_through_iff_load :
    (∃ c', @cpuTickInside .masked .inOrder (bootCpu 6 storeLoadProgram) = .ok c') ↔
      (latch (bootCpu 6 storeLoadProgram)).ReadsInside ∧
      (latch (bootCpu 6 storeLoadProgram)).StoresInside ∧
      (latch (bootCpu 6 storeLoadProgram)).PushesApart ∧
      ¬@Aborts .masked .inOrder (bootCpu 6 storeLoadProgram) ∧
      ¬(latch (bootCpu 6 storeLoadProgram)).StoresUnknown :=
  @gets_through_iff .masked (imageOf storeLoadProgram) (fun _ _ => 0) 0 (by decide) (bootTicks 6) _
    (cpuRun_boot (by decide +kernel)) .inOrder

/-- What a tick of a run needs to get through. -/
structure GetsThrough (o : Schedule) (c : Cpu) : Prop where
  executable : DispatchesExecutable o c
  reads : (latch c).ReadsInside
  retires : (latch c).RetiresStorable ∧ (latch c).RetiresInside
  apart : (latch c).PushesApart

omit hh in
instance (o : Schedule) (c : Cpu) : Decidable (GetsThrough o c) :=
  decidable_of_iff (DispatchesExecutable o c ∧ (latch c).ReadsInside ∧
    ((latch c).RetiresStorable ∧ (latch c).RetiresInside) ∧ (latch c).PushesApart)
    ⟨fun h => ⟨h.1, h.2.1, h.2.2.1, h.2.2.2⟩, fun h => ⟨h.1, h.2, h.3, h.4⟩⟩

/-- The loop of `main` gets through, and accesses memory and the table of the predictor
    inside their bounds, if it dispatches executable words, reads inside memory, retires
    stores of known sizes inside memory and keeps the two sides of the load-store queue
    apart. -/
theorem cpuLoop_gets_through {os : List Schedule}
    (hw : LoopAll GetsThrough os (cpuCreate image garbage hist)) :
    (∃ m, cpuLoop os (machineCreate image garbage hist) = .ok m) ∧
      LoopAll AccessesInside os (cpuCreate image garbage hist) := by
  have hall : LoopAll (fun o c => (Live (latch c) c.plain ∧
      Trained (bpCreate garbage hist) (latch c) c.plain ∧ Accepting (latch c) ∧
      c.plain.Storable ∧ c.plain.StoresInside) ∧ GetsThrough o c) os
      (cpuCreate image garbage hist) := by
    refine hw.invariant ⟨live_cpuCreate image garbage hist, trained_cpuCreate image garbage hist,
      accepting_cpuCreate image garbage hist, (fun _ hw => by cases hw), fun _ hw => by cases hw⟩ ?_
    rintro o c c' ⟨live, trained, acc, hq, hi⟩ hg ht
    have co := live.coherent
    have st := (Tick.of_cpuTick ht).step o.listeners_perm
    exact ⟨live.step st, trained.step co st (bp_of_cpuTick ht) (cpuPlainAt_bp _),
      acc.step co.conserved co.entries st hg.executable, st.retiredStores_all hq hg.retires.1,
      st.retiredStores_all hi hg.retires.2⟩
  constructor
  · refine hall.exists_ok ?_
    rintro o c ⟨⟨live, -, acc, hq, -⟩, hg⟩
    exact cpuTick_passes live hg.apart
      (acc.not_aborts live.coherent.conserved live.coherent.entries o)
      (live.stores.not_storesUnknown hq)
  · refine hall.imp ?_
    rintro o c ⟨⟨live, trained, -, -, hi⟩, hg⟩
    exact ⟨hg.reads, live.stores.storesInside hi,
      trained.predictsInside live.coherent.conserved.control hh (cpuPlainAt_bp _)⟩

end

theorem cpuLoop_gets_through_load :
    (∃ m, @cpuLoop .masked (bootTicks 20) (bootMachine 0 storeLoadProgram) = .ok m) ∧
      @LoopAll .masked (@AccessesInside .masked) (bootTicks 20) (boot storeLoadProgram) :=
  @cpuLoop_gets_through .masked (imageOf storeLoadProgram) (fun _ _ => 0) 0 (by decide)
    (bootTicks 20) (by decide +kernel)

end TomasuloCpu
