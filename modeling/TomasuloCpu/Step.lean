import TomasuloCpu.Effects

set_option autoImplicit false

/-!
# What a tick writes

For every register the values that the callbacks of a tick write to it, as a
table over the decisions taken on the latched registers.
-/
namespace TomasuloCpu
open Clocked

variable [WideShift]

section
variable (s : Latched) (data : MemData) (p : Plain)

def LsqPushes (payload : LsQueuePayload) : Prop :=
  (∃ rs, s.loadPick = some rs ∧ s.loadBlocked rs = some false ∧
    payload = rsLoadPayload (s.rm.rsPayload rs)) ∨
  (s.storesHead = true ∧ payload = robStorePayload s.head)

def loadRequest (payload : LsQueuePayload) : MemLoadRequest :=
  ⟨payload.addr, payload.size, payload.baseMsg, memTicks - 1⟩

def storeRequest (payload : LsQueuePayload) : MemStoreRequest :=
  ⟨payload.addr, payload.value, payload.size, memTicks - 1⟩

/-- The values that a tick writes to a register. -/
def Written : ∀ r : CpuReg, r.type → Prop
  | .req h, v => v = true ∧ h < helperCount ∧
      (s.rm.busClear = 0 ∧ (s.waits h = true ∨
        s.rr (.bhBusy h (bhOther (s.rm.current h))) = true ∨
        (bhReqIx s h < 0 ∧ (s.acquired h).isSome ∧ (s.outbox data h).isSome)))
  | .fire, v => v = (s.gnt != 0)
  | .busData, v => s.rm.busClear = 0 ∧ ∃ h < helperCount,
      s.rr (.bhBusy h (s.rm.current h)) = true ∧ s.gnt = h + 1 ∧
        v = s.rm.buffer h (s.rm.current h)
  | .busClear, v => (s.rm.busClear ≠ 0 ∧ v = s.rm.busClear - 1) ∨ (s.flushes = true ∧ v = (2 : ℤ))
  | .buffer h b, v => h < helperCount ∧ s.acquired h = some b ∧ s.outbox data h = some v
  | .current h, v => h < helperCount ∧ s.rm.busClear = 0 ∧ s.waits h = false ∧
      s.rr (.bhBusy h (bhOther (s.rm.current h))) = true ∧ v = bhOther (s.rm.current h)
  | .loadReq i, v =>
      (s.rm.memClear = false ∧ i ∈ memSlots ∧ s.rr (.loadBusy i) = true ∧
        v = { s.rm.loadReq i with ticksRemaining := (s.rm.loadReq i).ticksRemaining - 1 }) ∨
      (∃ payload, s.issuesLoad = some payload ∧ s.loadSlot = some i ∧ v = loadRequest payload)
  | .storeReq i, v =>
      (s.rm.memClear = false ∧ i ∈ memSlots ∧ s.rr (.storeBusy i) = true ∧
        v = { s.rm.storeReq i with ticksRemaining := (s.rm.storeReq i).ticksRemaining - 1 }) ∨
      (∃ payload, s.issuesStore = some payload ∧ s.storeSlot = some i ∧
        v = storeRequest payload)
  | .memClear, v | .regClear, v | .lsqClear, v => s.flushes = true ∧ v = true
  | .register x, v => s.writesHead = true ∧ x = s.head.dest ∧ v = s.head.value
  | .robIdSet x, v => ∃ rs inst, s.dispatch p = some (rs, inst) ∧ hasDest inst = true ∧
      x = inst.rd ∧ x ≠ 0 ∧ v = robId s.rm.robs.tail
  | .robIdClearIf x, v => (s.rm.regClear = true ∧ x ∈ regIds ∧ v = (-1 : ℤ)) ∨
      (s.retires = true ∧ x = s.head.dest ∧ 0 < x ∧ v = robId s.rm.robs.head)
  | .lsq (.data i), v =>
      (s.rm.lsqClear = true ∧ i ∈ s.lsq ∧ (s.rm.lsq.data i).op = .load ∧
        v = { s.rm.lsq.data i with cleared := true }) ∨
      (i = s.rm.lsq.tail ∧ LsqPushes s v)
  | .lsq .head, v => (s.rm.lsq.clear = true ∧ v = (0 : ℤ)) ∨
      (s.lsqPop.isSome ∧ v = queueTrunc lsQueueCapacity (s.rm.lsq.head + 1))
  | .lsq .tail, v => (s.rm.lsq.clear = true ∧ v = (0 : ℤ)) ∨
      ((∃ payload, LsqPushes s payload) ∧ v = queueTrunc lsQueueCapacity (s.rm.lsq.tail + 1))
  | .lsq .clear, v => s.rm.lsq.clear = true ∧ v = false
  | .lockSignal, v => s.rm.memClear = false ∧ (∃ i ∈ memSlots, memStoreDone s i = true) ∧ v = true
  | .aluTask a, v => ∃ rs, s.aluStarts a = some rs ∧ v = rsTask (s.rm.rsPayload rs)
  | .resultBuf a, v => a < aluCount ∧
      ((bhShouldClear s = true ∧ v = { s.rm.resultBuf a with busy := false }) ∨
      (∃ msg, s.aluMsg a = some msg ∧
        (((s.acquired (a + 1)).isSome ∧ (s.rm.resultBuf a).busy = true ∧
            v = { s.rm.resultBuf a with busy := false }) ∨
          (s.acquired (a + 1) = none ∧ (s.rm.resultBuf a).busy = false ∧ v = ⟨msg, true⟩))))
  | .rsBusy id, v =>
      (s.rm.rsClear = true ∧ id ∈ stations ∧ v = false) ∨
      ((∃ a, s.aluFrees a = some id) ∧ v = false) ∨
      (s.loadPick = some id ∧ s.loadBlocked id = some false ∧ v = false) ∨
      (s.storeFrees = some id ∧ v = false) ∨
      (∃ inst, s.dispatch p = some (id, inst) ∧ v = true)
  | .rsPayload id, v =>
      (s.rm.rsClear = false ∧ s.rm.rsBusy id = true ∧ id ∈ stations ∧
        ∃ msg, s.delivered = some msg ∧
          ((s.rm.rsPayload id).src1 = msg.rob ∨ (s.rm.rsPayload id).src2 = msg.rob) ∧
          v = rsMsgPayload (s.rm.rsPayload id) msg) ∨
      (∃ inst, s.dispatch p = some (id, inst) ∧
        v = dispatchRsPayload s p.dispatched (robId s.rm.robs.tail) inst s.rm.pc
          (s.rm.rsPayload id))
  | .rsClear, v => (s.rm.rsClear = true ∧ v = false) ∨ (s.flushes = true ∧ v = true)
  | .pc, v => (s.rm.forcePc.busy = true ∧ v = s.rm.forcePc.addr) ∨
      (∃ rs inst, s.dispatch p = some (rs, inst) ∧
        v = dispatchNext s (branchPredict p.bp s.rm.pc) inst s.rm.pc)
  | .forcePc, v => (s.rm.forcePc.busy = true ∧ v = { s.rm.forcePc with busy := false }) ∨
      (s.flushes = true ∧ v = ⟨true, robAddr s.head⟩)
  | .robs (.data i), _ => i = s.rm.robs.tail ∧ ∃ rs inst, s.dispatch p = some (rs, inst)
  | .robs .head, v => (s.rm.robs.clear = true ∧ v = (0 : ℤ)) ∨
      (s.retires = true ∧ v = queueTrunc robCapacity (s.rm.robs.head + 1))
  | .robs .tail, v => (s.rm.robs.clear = true ∧ v = (0 : ℤ)) ∨
      ((∃ rs inst, s.dispatch p = some (rs, inst)) ∧
        v = queueTrunc robCapacity (s.rm.robs.tail + 1))
  | .robs .clear, v => (s.rm.robs.clear = true ∧ v = false) ∨ (s.flushes = true ∧ v = true)
  | .robReady slot, v =>
      (s.retires = true ∧ slot = s.rm.robs.head ∧ v = false) ∨
      (s.rm.robs.clear = false ∧ slot ∈ s.robs ∧
        (∃ msg, s.delivered = some msg ∧ msg.rob = robId slot) ∧ v = true) ∨
      ((∃ rs, s.storeFrees = some rs ∧ slot = robSlot (s.rm.rsPayload rs).dest) ∧ v = true) ∨
      (slot = s.rm.robs.tail ∧ (∃ rs inst, s.dispatch p = some (rs, inst)) ∧ v = false)
  | .robPayload slot, v =>
      (s.rm.robs.clear = false ∧ slot ∈ s.robs ∧
        ∃ msg, s.delivered = some msg ∧ msg.rob = robId slot ∧
          v = robMsgPayload (s.rm.robPayload slot) msg) ∨
      (∃ rs, s.storePick = some rs ∧ slot = robSlot (s.rm.rsPayload rs).dest ∧
        v = s.storeEntry rs) ∨
      (slot = s.rm.robs.tail ∧ ∃ rs inst, s.dispatch p = some (rs, inst) ∧
        v = dispatchRobPayload s (branchPredict p.bp s.rm.pc) p.dispatched rs inst s.rm.pc
          (s.rm.robPayload slot))

def Raised : CpuOr → Prop
  | .bhBusy h b => h < helperCount ∧
      ((s.rm.busClear = 0 ∧ ((b = s.rm.current h ∧ s.waits h = true) ∨
          (b = bhOther (s.rm.current h) ∧ s.rr (.bhBusy h b) = true))) ∨
        (s.acquired h = some b ∧ (s.outbox data h).isSome))
  | .loadBusy i =>
      (s.rm.memClear = false ∧ i ∈ memSlots ∧ s.rr (.loadBusy i) = true ∧
        s.memSends data ≠ some i) ∨
      (s.issuesLoad.isSome ∧ s.loadSlot = some i)
  | .storeBusy i =>
      (i ∈ memSlots ∧ s.rr (.storeBusy i) = true ∧
        (s.rm.memClear = true ∨ memStoreDone s i = false)) ∨
      (s.issuesStore.isSome ∧ s.storeSlot = some i)
  | .lockStall => (s.rr .lockStall = true ∧ s.rm.lockSignal = false) ∨ s.issuesStore.isSome
  | .aluBusy a =>
      (a < aluCount ∧ (s.aluMsg a).isSome ∧ (s.acquired (a + 1)).isSome ∧
        (s.rm.resultBuf a).busy = true ∧ s.rr (.aluBusy a) = true) ∨
      (s.aluStarts a).isSome

end

omit [WideShift] in
theorem bhTick_mem_registered {h : ℕ} :
    Callback.bhTick h ∈ Callback.registered ↔ h < helperCount := by
  simp [Callback.registered, helperCount]
  omega

omit [WideShift] in
theorem aluTick_mem_registered {a : ℕ} :
    Callback.aluTick a ∈ Callback.registered ↔ a < aluCount := by
  simp [Callback.registered, aluCount]
  omega

omit [WideShift] in
theorem Callback.mem_registered :
    Callback.busTick ∈ Callback.registered ∧ Callback.memTick ∈ Callback.registered ∧
    Callback.regFileTick ∈ Callback.registered ∧ Callback.queueTick .lsq ∈ Callback.registered ∧
    Callback.busyWaitTick ∈ Callback.registered ∧ Callback.lsQueueTick ∈ Callback.registered ∧
    Callback.rsUnitTick ∈ Callback.registered ∧ Callback.instUnitTick ∈ Callback.registered ∧
    Callback.queueTick .robs ∈ Callback.registered ∧
    Callback.robUnitTick ∈ Callback.registered := by
  decide

omit [WideShift] in
theorem sender_mem_registered {h : ℕ} : sender h ∈ Callback.registered ↔ h < helperCount := by
  cases h with
  | zero => decide
  | succ a =>
    simp only [sender, aluTick_mem_registered, aluCount, helperCount]
    omega

section
variable {ls : List Listener} {s : Latched} {q p : Plain}

/-- Some callback of a tick writes a value to a register. -/
def Writes (ls : List Listener) (s : Latched) (q p : Plain) (r : CpuReg) (v : r.type) : Prop :=
  ∃ cb ∈ Callback.registered, Effect.write r v ∈ Callback.tickEffects ls s q p cb

theorem writes_iff_owner {r : CpuReg} {v : r.type} :
    Writes ls s q p r v ↔ ∃ cb ∈ r.owners, cb ∈ Callback.registered ∧
      Effect.write r v ∈ Callback.tickEffects ls s q p cb := by
  constructor
  · rintro ⟨cb, hcb, h⟩
    have := cb.owned s ls (if cb = .instUnitTick then p else q) hcb _ h
    exact ⟨cb, by simpa [owners] using this, hcb, h⟩
  · rintro ⟨cb, -, hcb, h⟩
    exact ⟨cb, hcb, h⟩

variable (hf : ∀ cb ∈ Callback.registered, ∀ f, Effect.fail f ∉ Callback.tickEffects ls s q p cb)

include hf in
theorem memMsg_isSome {i : ℕ} (h : s.memReady = some i) (ha : (s.acquired 0).isSome) :
    (s.memMsg q.data i).isSome := by
  by_contra hn
  refine hf .memTick (by decide) .assertion (mem_memTick.2 (.inr ⟨?_, .inr (.inl ⟨i, h, ?_⟩)⟩))
  · simp only [Latched.memReady] at h
    cases hc : s.rm.memClear
    · rfl
    · simp [hc] at h
  · obtain ⟨b, hb⟩ := Option.isSome_iff_exists.1 ha
    exact mem_memSendEffects.2 (.inr ⟨b, hb, .inl ⟨by simpa using hn, rfl⟩⟩)

include hf in
theorem sender_effects {h : ℕ} (hh : h < helperCount) {e : CpuEffect}
    (he : (∃ v, e = .write (.req h) v) ∨ (∃ b v, e = .write (.buffer h b) v) ∨
      (∃ b v, e = .reduce (.bhBusy h b) v)) :
    e ∈ Callback.tickEffects ls s q p (sender h) ↔ ∃ msg b, s.outbox q.data h = some msg ∧
      s.acquired h = some b ∧ (e ∈ (bhAcquire s h).1 ∨ e = .write (.buffer h b) msg) := by
  cases h with
  | zero =>
    change e ∈ memTick s q.data ↔ _
    have hm : ∀ i, s.memReady = some i → e ∈ memSendEffects s q.data i →
        ∃ msg b, s.memMsg q.data i = some msg ∧ s.acquired 0 = some b ∧
          (e ∈ (bhAcquire s 0).1 ∨ e = .write (.buffer 0 b) msg) := by
      intro i hi hm
      rw [mem_memSendEffects] at hm
      obtain ⟨b, hb⟩ : ∃ b, s.acquired 0 = some b := by
        rcases hm with hm | ⟨b, hb, -⟩
        · obtain ⟨b, hb, -⟩ := mem_bhAcquire.1 hm
          exact ⟨b, hb⟩
        · exact ⟨b, hb⟩
      obtain ⟨msg, hmsg⟩ := Option.isSome_iff_exists.1 (memMsg_isSome hf hi (by simp [hb]))
      refine ⟨msg, b, hmsg, hb, ?_⟩
      rcases hm with hm | ⟨b', hb', h | ⟨msg', hmsg', h⟩⟩
      · exact .inl hm
      · simp [hmsg] at h
      · rw [hb] at hb'
        rw [hmsg] at hmsg'
        cases hb'
        cases hmsg'
        rcases h with h | h
        · exact .inr h
        · rcases he with ⟨v, rfl⟩ | ⟨b, v, rfl⟩ | ⟨b, v, rfl⟩ <;> simp at h
    have hr : ∀ {i}, s.memReady = some i → s.rm.memClear = false := by
      intro i hi
      simp only [Latched.memReady] at hi
      cases hc : s.rm.memClear
      · rfl
      · simp [hc] at hi
    have hm' : e ∈ memTick s q.data ↔
        ∃ i, s.memReady = some i ∧ e ∈ memSendEffects s q.data i := by
      rw [mem_memTick]
      constructor
      · rintro (⟨-, i, -, h⟩ | ⟨-, ⟨i, -, -, h⟩ | h | ⟨i, -, h⟩ | ⟨i, -, h⟩⟩)
        · rcases he with ⟨v, rfl⟩ | ⟨b, v, rfl⟩ | ⟨b, v, rfl⟩ <;> simp at h
        · rcases he with ⟨v, rfl⟩ | ⟨b, v, rfl⟩ | ⟨b, v, rfl⟩ <;> simp at h
        · exact h
        · rcases he with ⟨v, rfl⟩ | ⟨b, v, rfl⟩ | ⟨b, v, rfl⟩ <;> simp [mem_memStoreStep] at h
        · rcases he with ⟨v, rfl⟩ | ⟨b, v, rfl⟩ | ⟨b, v, rfl⟩ <;> simp at h
      · rintro ⟨i, hi, h⟩
        exact .inr ⟨hr hi, .inr (.inl ⟨i, hi, h⟩)⟩
    rw [hm']
    simp only [Latched.outbox, Option.bind_eq_some_iff]
    constructor
    · rintro ⟨i, hi, h⟩
      obtain ⟨msg, b, hmsg, hb, h⟩ := hm i hi h
      exact ⟨msg, b, ⟨i, hi, hmsg⟩, hb, h⟩
    · rintro ⟨msg, b, ⟨i, hi, hmsg⟩, hb, h⟩
      refine ⟨i, hi, mem_memSendEffects.2 ?_⟩
      exact h.imp_right fun h => ⟨b, hb, .inr ⟨msg, hmsg, .inl h⟩⟩
  | succ a =>
    change e ∈ aluTick a s ↔ _
    have ha : Callback.aluTick a ∈ Callback.registered := by
      simp only [aluTick_mem_registered, aluCount, helperCount] at hh ⊢
      omega
    have hx : ¬(bhShouldClear s = false ∧ (s.rm.resultBuf a).busy = false ∧
        s.rr (.aluBusy a) = true ∧ aluExecute (s.rm.aluTask a).op (s.rm.aluTask a).value1
          (s.rm.aluTask a).value2 = none) := by
      rintro ⟨h1, h2, h3, h4⟩
      exact hf _ ha .assertion (mem_aluTick.2 (.inr (.inr ⟨h1, h2, h3, h4, .inr rfl⟩)))
    rw [mem_aluTick]
    simp only [Latched.outbox]
    constructor
    · rintro (⟨-, h⟩ | ⟨msg, hmsg, ⟨b, hb, h⟩ | ⟨-, -, h⟩⟩ | ⟨h1, h2, h3, h4, -⟩)
      · rcases he with ⟨v, rfl⟩ | ⟨b, v, rfl⟩ | ⟨b, v, rfl⟩ <;> simp at h
      · refine ⟨msg, b, hmsg, hb, ?_⟩
        rcases h with h | h | ⟨-, h⟩
        · exact .inl h
        · exact .inr h
        · rcases he with ⟨v, rfl⟩ | ⟨b, v, rfl⟩ | ⟨b, v, rfl⟩ <;> simp at h
      · rcases he with ⟨v, rfl⟩ | ⟨b, v, rfl⟩ | ⟨b, v, rfl⟩ <;> simp at h
      · exact absurd ⟨h1, h2, h3, h4⟩ hx
    · rintro ⟨msg, b, hmsg, hb, h⟩
      refine .inr (.inl ⟨msg, hmsg, .inl ⟨b, hb, ?_⟩⟩)
      rcases h with h | h
      · exact .inl h
      · exact .inr (.inl h)

include hf in
theorem memStoreDone_ok {i : ℕ} (hi : i ∈ memSlots) (hc : s.rm.memClear = false)
    (h : memStoreDone s i = true) :
    memSetSz (fun _ => 0) (s.rm.storeReq i).addr (s.rm.storeReq i).value
      (s.rm.storeReq i).size ≠ none := by
  intro hn
  have hb : s.rr (.storeBusy i) = true := by
    simp only [memStoreDone, Bool.and_eq_true] at h
    exact h.1
  exact hf .memTick (by decide) .assertion (mem_memTick.2 (.inr ⟨hc, .inr (.inr (.inl
    ⟨i, hi, mem_memStoreStep.2 ⟨hb, .inr ⟨h, .inl ⟨hn, rfl⟩⟩⟩⟩))⟩))

variable (hls : ls.Perm Listener.registered)

include hf in
private theorem writes_req {h : ℕ} {v : CpuReg.type (.req h)} :
    Writes ls s q p (.req h) v ↔ Written s q.data p (.req h) v := by
  rw [writes_iff_owner]
  by_cases hh : h < helperCount
  · simp only [CpuReg.owners, List.mem_cons, List.not_mem_nil, or_false, exists_eq_or_imp,
      exists_eq_left, bhTick_mem_registered, sender_mem_registered, hh, true_and, Written,
      sender_effects hf hh (.inl ⟨v, rfl⟩), mem_bhAcquire]
    cases s.outbox q.data h <;> cases s.acquired h <;> cases hw : s.waits h <;>
      simp [Callback.tickEffects, Callback.effects, mem_bhTick, hw] <;> tauto
  · simp [CpuReg.owners, bhTick_mem_registered, sender_mem_registered, Written, hh]

private theorem writes_busData {v : CpuReg.type .busData} :
    Writes ls s q p .busData v ↔ Written s q.data p .busData v := by
  rw [writes_iff_owner]
  have h3 : ∀ P : ℕ → Prop, (∃ h < helperCount, P h) ↔ P 0 ∨ P 1 ∨ P 2 := by
    intro P
    constructor
    · rintro ⟨h, hh, hp⟩
      simp only [helperCount] at hh
      obtain rfl | rfl | rfl : h = 0 ∨ h = 1 ∨ h = 2 := by omega
      · exact .inl hp
      · exact .inr (.inl hp)
      · exact .inr (.inr hp)
    · rintro (hp | hp | hp)
      · exact ⟨0, by decide, hp⟩
      · exact ⟨1, by decide, hp⟩
      · exact ⟨2, by decide, hp⟩
  simp only [Written, h3]
  simp [CpuReg.owners, bhTick_mem_registered, Callback.tickEffects, Callback.effects,
    mem_bhTick, helperCount, and_or_left]

include hf in
private theorem writes_buffer {h : ℕ} {b : ℤ} {v : CpuReg.type (.buffer h b)} :
    Writes ls s q p (.buffer h b) v ↔ Written s q.data p (.buffer h b) v := by
  rw [writes_iff_owner]
  by_cases hh : h < helperCount
  · simp only [CpuReg.owners, List.mem_cons, List.not_mem_nil, or_false,
      exists_eq_left, sender_mem_registered, hh, true_and, Written,
      sender_effects hf hh (.inr (.inl ⟨b, v, rfl⟩)), mem_bhAcquire]
    cases s.outbox q.data h <;> cases s.acquired h <;> simp [eq_comm]
  · simp [CpuReg.owners, sender_mem_registered, Written, hh]

include hf in
private theorem writes_lockSignal {v : CpuReg.type .lockSignal} :
    Writes ls s q p .lockSignal v ↔ Written s q.data p .lockSignal v := by
  rw [writes_iff_owner]
  have ho := fun i hi hc => memStoreDone_ok (p := p) (i := i) hf hi hc
  simp [CpuReg.owners, Callback.mem_registered, Callback.tickEffects, Callback.effects, Written,
    mem_memTick, mem_memSendEffects, mem_bhAcquire, mem_memStoreStep]
  refine fun hc => ⟨?_, ?_⟩
  · rintro ⟨i, hi, -, hd, -, hv⟩
    exact ⟨⟨i, hi, hd⟩, hv⟩
  · rintro ⟨⟨i, hi, hd⟩, hv⟩
    have hb : s.rr (.storeBusy i) = true := by
      simp only [memStoreDone, Bool.and_eq_true] at hd
      exact hd.1
    exact ⟨i, hi, hb, hd, ho i hi hc hd, hv⟩

include hf hls in
theorem writes_iff {r : CpuReg} {v : r.type} :
    Writes ls s q p r v ↔ Written s q.data p r v := by
  cases r with
  | req h => exact writes_req hf
  | busData => exact writes_busData
  | buffer h b => exact writes_buffer hf
  | lockSignal => exact writes_lockSignal hf
  | fire | busClear | rsPayload id =>
    rw [writes_iff_owner]
    simp [CpuReg.owners, Callback.mem_registered, Callback.tickEffects, Callback.effects, Written,
      mem_busTick hls, mem_robUnitOnmsg, mem_rsOnmsg, rsCapture, mem_instUnitTick,
      mem_instDispatch, mem_instRegLog, mem_robUnitTick, mem_robFlush] <;> grind
  | current h =>
    rw [writes_iff_owner]
    simp [CpuReg.owners, bhTick_mem_registered, Callback.tickEffects, Callback.effects, Written,
      mem_bhTick]
  | loadReq i | storeReq i =>
    rw [writes_iff_owner]
    simp [CpuReg.owners, Callback.mem_registered, Callback.tickEffects, Callback.effects, Written,
      mem_memTick, mem_memSendEffects, mem_bhAcquire, mem_memStoreStep, mem_lsQueueTick,
      mem_memRequestLoad, mem_memRequestStore, loadRequest, storeRequest]
  | memClear | regClear | lsqClear | register x | robIdClearIf x =>
    rw [writes_iff_owner]
    simp [CpuReg.owners, Callback.mem_registered, Callback.tickEffects, Callback.effects, Written,
      mem_regFileTick, mem_robUnitTick, mem_robFlush] <;> grind
  | robIdSet x =>
    rw [writes_iff_owner]
    simp only [CpuReg.owners, List.mem_cons, List.not_mem_nil, or_false, exists_eq_left,
      Callback.mem_registered, Callback.tickEffects, Callback.effects, Written, mem_instUnitTick,
      mem_instDispatch, mem_instRegLog]
    simp
    grind
  | lsq r =>
    rw [writes_iff_owner]
    cases r <;>
      simp [CpuReg.owners, Callback.mem_registered, Callback.tickEffects, Callback.effects,
        Written, mem_liftLsq_queueTick, mem_lsQueueTick, mem_memRequestLoad,
        mem_memRequestStore, mem_rsUnitTick, mem_robUnitTick, mem_robFlush, LsqPushes,
        rsLoadPayload, robStorePayload, Option.isSome_iff_exists] <;> grind
  | aluTask a | rsBusy id | rsClear =>
    rw [writes_iff_owner]
    simp [CpuReg.owners, Callback.mem_registered, Callback.tickEffects, Callback.effects, Written,
      mem_rsUnitTick, mem_instUnitTick, mem_instDispatch, mem_instRegLog, mem_robUnitTick,
      mem_robFlush, or_assoc]
  | resultBuf a =>
    rw [writes_iff_owner]
    simp [CpuReg.owners, aluTick_mem_registered, Callback.tickEffects, Callback.effects, Written,
      mem_aluTick, mem_bhAcquire, Option.isSome_iff_exists]
  | pc | forcePc =>
    rw [writes_iff_owner]
    simp [CpuReg.owners, Callback.mem_registered, Callback.tickEffects, Callback.effects, Written,
      mem_instUnitTick, mem_instDispatch, mem_instRegLog, mem_robUnitTick, mem_robFlush]
  | robs r =>
    rw [writes_iff_owner]
    cases r <;>
      simp [CpuReg.owners, Callback.mem_registered, Callback.tickEffects, Callback.effects,
        Written, mem_liftRobs_queueTick, mem_instUnitTick, mem_instDispatch, mem_instRegLog,
        mem_robUnitTick, mem_robFlush, and_comm]
  | robReady slot | robPayload slot =>
    rw [writes_iff_owner]
    simp [CpuReg.owners, Callback.mem_registered, Callback.tickEffects, Callback.effects, Written,
      mem_busTick hls, mem_robUnitOnmsg, mem_rsOnmsg, rsCapture, mem_rsUnitTick,
      mem_instUnitTick, mem_instDispatch, mem_instRegLog, mem_robUnitTick, mem_robFlush]
    grind

include hf in
theorem reduces_iff {x : CpuOr} :
    (∃ cb ∈ Callback.registered, cb ∈ x.owners ∧
      Effect.reduce x true ∈ Callback.tickEffects ls s q p cb) ↔ Raised s q.data x := by
  have hswap : (∃ cb ∈ Callback.registered, cb ∈ x.owners ∧
      Effect.reduce x true ∈ Callback.tickEffects ls s q p cb) ↔
      ∃ cb ∈ x.owners, cb ∈ Callback.registered ∧
        Effect.reduce x true ∈ Callback.tickEffects ls s q p cb :=
    exists_congr fun cb => and_left_comm
  rw [hswap]
  cases x with
  | bhBusy h b =>
    by_cases hh : h < helperCount
    · simp only [CpuOr.owners, List.mem_cons, List.not_mem_nil, or_false, exists_eq_or_imp,
        exists_eq_left, bhTick_mem_registered, sender_mem_registered, hh, true_and, Raised,
        sender_effects hf hh (.inr (.inr ⟨b, true, rfl⟩)), mem_bhAcquire]
      cases s.outbox q.data h <;> cases s.acquired h <;> cases hw : s.waits h <;>
        simp [Callback.tickEffects, Callback.effects, mem_bhTick, hw] <;> grind
    · simp [CpuOr.owners, bhTick_mem_registered, sender_mem_registered, Raised, hh]
  | loadBusy i =>
    simp [CpuOr.owners, Callback.mem_registered, Callback.tickEffects, Callback.effects, Raised,
      mem_memTick, mem_memSendEffects, mem_bhAcquire, mem_memStoreStep, mem_lsQueueTick,
      mem_memRequestLoad, mem_memRequestStore, Option.isSome_iff_exists]
  | storeBusy i =>
    simp [CpuOr.owners, Callback.mem_registered, Callback.tickEffects, Callback.effects, Raised,
      mem_memTick, mem_memSendEffects, mem_bhAcquire, mem_memStoreStep, mem_lsQueueTick,
      mem_memRequestLoad, mem_memRequestStore, Option.isSome_iff_exists]
    grind
  | lockStall =>
    simp [CpuOr.owners, Callback.mem_registered, Callback.tickEffects, Callback.effects, Raised,
      mem_busyWaitTick, mem_lsQueueTick, mem_memRequestLoad, mem_memRequestStore,
      Option.isSome_iff_exists]
  | aluBusy a =>
    simp [CpuOr.owners, Callback.mem_registered, aluTick_mem_registered, Callback.tickEffects,
      Callback.effects, Raised, mem_aluTick, mem_bhAcquire, mem_rsUnitTick,
      Option.isSome_iff_exists]

end

namespace Tick
variable {ls : List Listener} {c c' : Cpu} {p : Plain}

/-- A register holds what a tick wrote to it. -/
theorem written (t : Tick ls c c' p) (hls : ls.Perm Listener.registered) {r : CpuReg}
    {v : r.type} (h : Written (latch c) c.plain.data p r v) : (latch c').rm r = v := by
  obtain ⟨cb, hcb, hm⟩ := (writes_iff t.noFail hls).2 h
  exact t.write hcb hm

theorem kept (t : Tick ls c c' p) (hls : ls.Perm Listener.registered) {r : CpuReg}
    (h : ∀ v, ¬Written (latch c) c.plain.data p r v) :
    (latch c').rm r = (latchNext c).next r :=
  t.keep fun cb hcb _ v hm => h v ((writes_iff t.noFail hls).1 ⟨cb, hcb, hm⟩)

theorem raised (t : Tick ls c c' p) {x : CpuOr} :
    (latch c').rr x = true ↔ Raised (latch c) c.plain.data x := by
  rw [← reduces_iff t.noFail]
  exact t.reduced

end Tick

end TomasuloCpu
