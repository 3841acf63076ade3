import TomasuloCpu.Stores

set_option autoImplicit false

/-!
# Memory slots

A tick issues at most one load, a load is due two ticks later, and the helper of
memory is the first one that the bus grants. So at most two of the three slots
are busy, and a load that is due finds a free buffer.
-/
namespace TomasuloCpu
open Clocked

/-- The busy load slots are due in different ticks, and the helper of memory
    holds at most one message. -/
structure LoadsOk (s : Latched) : Prop where
  single : (s.helperQueue 0).length ≤ 1
  due : ∀ i ∈ memSlots, s.rr (.loadBusy i) = true →
    (s.rm.loadReq i).ticksRemaining = 1 ∨ (s.rm.loadReq i).ticksRemaining = 2
  distinct : ∀ i ∈ memSlots, ∀ j ∈ memSlots, s.rr (.loadBusy i) = true →
    s.rr (.loadBusy j) = true →
    (s.rm.loadReq i).ticksRemaining = (s.rm.loadReq j).ticksRemaining → i = j

variable [WideShift] {s s' : Latched} {q p q' : Plain} {i : ℕ}

omit [WideShift] in
theorem gnt_of_req (hs : s.Computed) (hb : s.rm.busClear = 0) (hr : s.rm.req 0 = true) :
    s.gnt = 1 := by
  have hf : (List.range helperCount).find? (fun i => s.rm.req i) = some 0 := by
    simp [helperCount, List.range_succ, hr]
  simp [hs.gnt, busArb, hb, hf]

namespace LoadsOk
variable (ok : LoadsOk s) (hh : HelperOk s 0)
include ok hh

omit [WideShift] in
theorem other (hb : s.rr (.bhBusy 0 (bhOther (s.rm.current 0))) = true) : False := by
  have hlen := ok.single
  simp [Latched.helperQueue, hb, hh.other hb] at hlen

omit [WideShift] in
theorem acquired (hb : s.rm.busClear = 0) : (s.acquired 0).isSome = true := by
  have hother : s.rr (.bhBusy 0 (bhOther (s.rm.current 0))) = false := by
    by_contra h
    exact ok.other hh (by simpa using h)
  rw [acquired_eq hh.current hb, hother]
  cases s.waits 0 <;> rfl

omit [WideShift] in
theorem granted (hs : s.Computed) (hb : s.rm.busClear = 0) :
    (if s.gnt = 0 + 1 then (s.helperQueue 0).tail else s.helperQueue 0) = [] := by
  have hlen := ok.single
  rcases hq : s.helperQueue 0 with _ | ⟨msg, _ | ⟨msg', l⟩⟩
  · split <;> rfl
  · have hbusy : s.rr (.bhBusy 0 (s.rm.current 0)) = true := by
      by_contra h
      have hother : s.rr (.bhBusy 0 (bhOther (s.rm.current 0))) = false := by
        by_contra h'
        exact ok.other hh (by simpa using h')
      simp [Latched.helperQueue, h, hother] at hq
    rw [if_pos (gnt_of_req hs hb (hh.req.trans hbusy)), List.tail_cons]
  · simp [hq] at hlen

end LoadsOk

omit [WideShift] in
/-- While the bus is cleared no load is due. -/
theorem Control.busClear_of_memReady (ctl : Control s) (h : s.memReady = some i) :
    s.rm.busClear = 0 := by
  obtain ⟨hc, hi, hb, -⟩ := memReady_spec h
  rcases ctl.busClear with ⟨-, hr⟩ | ⟨-, -, hq⟩ | ⟨h0, -⟩
  · simp [ctl.memClear.trans hr] at hc
  · simp [hq.loadBusy i hi] at hb
  · exact h0

namespace LoadsOk
variable (ok : LoadsOk s)
include ok

omit [WideShift] in
theorem memReady_iff (hc : s.rm.memClear = false) : s.memReady = some i ↔
    i ∈ memSlots ∧ s.rr (.loadBusy i) = true ∧ (s.rm.loadReq i).ticksRemaining = 1 := by
  constructor
  · intro h
    obtain ⟨-, hi, hb, ht⟩ := memReady_spec h
    have := ok.due i hi hb
    exact ⟨hi, hb, by omega⟩
  · rintro ⟨hi, hb, ht⟩
    cases hr : s.memReady with
    | none =>
      simp only [Latched.memReady, hc, Bool.false_eq_true, ↓reduceIte] at hr
      have := List.find?_eq_none.1 hr i hi
      simp [hb, ht] at this
    | some j =>
      obtain ⟨-, hj, hbj, htj⟩ := memReady_spec hr
      have := ok.due j hj hbj
      rw [ok.distinct j hj i hi hbj hb (by omega)]

omit [WideShift] in
theorem loadSlot_isSome : s.loadSlot.isSome = true := by
  by_contra hn
  have hn : memSlots.find? (fun i => !s.rr (.loadBusy i)) = none := by
    simpa [Latched.loadSlot, memAcquire] using hn
  have busy : ∀ i ∈ memSlots, s.rr (.loadBusy i) = true := fun i hi => by
    simpa using List.find?_eq_none.1 hn i hi
  have h0 : 0 ∈ memSlots := by decide
  have h1 : 1 ∈ memSlots := by decide
  have h2 : 2 ∈ memSlots := by decide
  have d0 := ok.due 0 h0 (busy 0 h0)
  have d1 := ok.due 1 h1 (busy 1 h1)
  have d2 := ok.due 2 h2 (busy 2 h2)
  have e01 := ok.distinct 0 h0 1 h1 (busy 0 h0) (busy 1 h1)
  have e02 := ok.distinct 0 h0 2 h2 (busy 0 h0) (busy 2 h2)
  have e12 := ok.distinct 1 h1 2 h2 (busy 1 h1) (busy 2 h2)
  omega

variable (inv : Conserved s) (st : Step s q p s' q')
include inv st

theorem memSends (h : s.memReady = some i) : s.memSends q.data = some i := by
  have ha := ok.acquired (inv.helper 0 (by decide)) (inv.control.busClear_of_memReady h)
  rw [Latched.memSends, h, Option.filter_some]
  simp [ha, st.memMsg_isSome h ha]

/-- A busy slot holds a load that is not due yet, or a new one. -/
theorem loadReq_step (hb : s'.rr (.loadBusy i) = true) :
    (i ∈ memSlots ∧ s.rr (.loadBusy i) = true ∧ (s.rm.loadReq i).ticksRemaining = 2 ∧
      (s'.rm.loadReq i).ticksRemaining = 1) ∨
    (s.loadSlot = some i ∧ (s'.rm.loadReq i).ticksRemaining = 2) := by
  rcases st.raised.1 hb with ⟨hc, hi, hb, hn⟩ | ⟨hl, hs⟩
  · have ht : (s.rm.loadReq i).ticksRemaining ≠ 1 := fun ht =>
      hn (ok.memSends inv st ((ok.memReady_iff hc).2 ⟨hi, hb, ht⟩))
    have ht := (ok.due i hi hb).resolve_left ht
    refine .inl ⟨hi, hb, ht, ?_⟩
    rw [st.loadReq_busy hc hi hb, ht]
    rfl
  · obtain ⟨payload, hl⟩ := Option.isSome_iff_exists.1 hl
    refine .inr ⟨hs, ?_⟩
    rw [st.loadReq_issue hl hs]
    rfl

theorem step : LoadsOk s' where
  single := by
    have hh := inv.helper 0 (by decide)
    by_cases hb : s.rm.busClear = 0
    · rw [(st.helper hh (by decide) hb).2, ok.granted hh st.computed hb]
      cases s.sent q.data 0 <;> simp
    · simp [(st.helper_clear inv.control hb hh (by decide)).2]
  due := fun i _ hb => (ok.loadReq_step inv st hb).elim (fun h => .inl h.2.2.2) fun h => .inr h.2
  distinct := fun i hi j hj hbi hbj he => by
    rcases ok.loadReq_step inv st hbi with ⟨-, bi, ti, ti'⟩ | ⟨si, ti'⟩ <;>
      rcases ok.loadReq_step inv st hbj with ⟨-, bj, tj, tj'⟩ | ⟨sj, tj'⟩
    · exact ok.distinct i hi j hj bi bj (ti.trans tj.symm)
    · omega
    · omega
    · exact Option.some.inj (si.symm.trans sj)

omit ok inv in
theorem issued_loadReq {payload : LsQueuePayload} (h : s.issuesLoad = some payload) :
    ∃ i ∈ memSlots, s'.rr (.loadBusy i) = true ∧ s'.rm.loadReq i = loadRequest payload := by
  obtain ⟨i, hi⟩ := Option.isSome_iff_exists.1 (st.loadSlot (by simp [h]))
  exact ⟨i, (loadSlot_spec hi).1, st.raised.2 (.inr ⟨by simp [h], hi⟩), st.loadReq_issue h hi⟩

omit inv in
theorem loadReq_waits (hc : s.rm.memClear = false) (hi : i ∈ memSlots)
    (hb : s.rr (.loadBusy i) = true) (ht : (s.rm.loadReq i).ticksRemaining = 2) :
    s'.rr (.loadBusy i) = true ∧ s'.rm.loadReq i = { s.rm.loadReq i with ticksRemaining := 1 } := by
  have hn : s.memSends q.data ≠ some i := fun h => by
    have := ((ok.memReady_iff hc).1 (memSends_spec h).1).2.2
    omega
  refine ⟨st.raised.2 (.inl ⟨hc, hi, hb, hn⟩), ?_⟩
  rw [st.loadReq_busy hc hi hb, ht]
  rfl

theorem loadReq_due (hc : s.rm.memClear = false) (hi : i ∈ memSlots)
    (hb : s.rr (.loadBusy i) = true) (ht : (s.rm.loadReq i).ticksRemaining = 1) :
    ∃ msg, s.memMsg q.data i = some msg ∧ s.sent q.data 0 = some msg ∧
      msg ∈ s'.helperQueue 0 := by
  have hready := (ok.memReady_iff hc).2 ⟨hi, hb, ht⟩
  obtain ⟨-, -, hmsg⟩ := memSends_spec (ok.memSends inv st hready)
  obtain ⟨msg, hmsg⟩ := Option.isSome_iff_exists.1 hmsg
  have hsent : s.sent q.data 0 = some msg := by
    rw [st.sent_mem, ok.memSends inv st hready]
    exact hmsg
  refine ⟨msg, hmsg, hsent, ?_⟩
  have hbus := inv.control.busClear_of_memReady hready
  rw [(st.helper (inv.helper 0 (by decide)) (by decide) hbus).2, hsent]
  simp

end LoadsOk

omit [WideShift] in
/-- At most two stores are in flight. -/
theorem StoresOk.storeSlot_isSome (ok : StoresOk s q) : s.storeSlot.isSome = true := by
  by_contra hn
  have hn : memSlots.find? (fun i => !s.rr (.storeBusy i)) = none := by
    simpa [Latched.storeSlot, memAcquire] using hn
  have hsub : memSlots ⊆ q.inFlight := fun i hi =>
    (ok.busy i).2 ⟨hi, by simpa using List.find?_eq_none.1 hn i hi⟩
  have hlen := (List.subperm_of_subset memSlots_nodup hsub).length_le
  have hle : q.inFlight.length ≤ 2 := by
    rw [← List.length_map (f := fun i => (s.rm.storeReq i).ticksRemaining)]
    have h := ok.ticks
    simp only [List.mem_cons, List.not_mem_nil, or_false] at h
    rcases h with h | h | h | h <;> rw [h] <;> decide
  simp only [memSlots, List.length_cons, List.length_nil] at hlen
  omega

/-- Two ticks after its issue a load is handed to the helper of memory, unless a
    flush clears it. -/
theorem LoadsOk.handed {s₁ s₂ s₃ : Latched} {q₁ q₂ q₃ p₁ p₂ : Plain} (ok : LoadsOk s)
    (inv : Conserved s) (st : Step s q p s₁ q₁) (st₁ : Step s₁ q₁ p₁ s₂ q₂)
    (st₂ : Step s₂ q₂ p₂ s₃ q₃) {payload : LsQueuePayload} (h : s.issuesLoad = some payload)
    (hc₁ : s₁.rm.memClear = false) (hc₂ : s₂.rm.memClear = false) :
    ∃ msg, s₂.sent q₂.data 0 = some msg ∧ msg ∈ s₃.helperQueue 0 ∧
      msg.key = payload.baseMsg.key ∧
      memGetSz q₂.data payload.addr payload.size = some msg.result := by
  have inv₁ := inv.step st
  have ok₁ := ok.step inv st
  obtain ⟨i, hi, hb, hreq⟩ := issued_loadReq st h
  obtain ⟨hb₁, hreq₁⟩ := ok₁.loadReq_waits st₁ hc₁ hi hb (by rw [hreq]; rfl)
  obtain ⟨msg, hmsg, hsent, hq⟩ :=
    (ok₁.step inv₁ st₁).loadReq_due (inv₁.step st₁) st₂ hc₂ hi hb₁ (by rw [hreq₁])
  refine ⟨msg, hsent, hq, ?_, ?_⟩
  · rw [memMsg_key hmsg, hreq₁, hreq]
    rfl
  · obtain ⟨v, hv, rfl⟩ := Option.map_eq_some_iff.1 hmsg
    rw [hreq₁, hreq] at hv
    exact hv

section
variable (image : MemData) (garbage : ℤ → ℤ → ℤ) (hist : ℤ)

omit [WideShift] in
theorem loadsOk_cpuCreate : LoadsOk (latch (cpuCreate image garbage hist)) where
  single := Nat.zero_le 1
  due := fun i _ hb => by cases hb
  distinct := fun i _ j _ hb => by cases hb

/-- In every state of a run that trips no assertion there is a free slot for a load
    and for a store, and a buffer for the load that is due; what a tick issues is in
    a slot after it, and a load that no flush clears is handed on two ticks later. -/
theorem memory_slots_suffice {os : List Schedule} {c : Cpu}
    (hr : cpuRun os (cpuCreate image garbage hist) = .ok c) :
    (∃ i ∈ memSlots, (latch c).loadSlot = some i ∧ (latch c).rr (.loadBusy i) = false) ∧
    (∃ i ∈ memSlots, (latch c).storeSlot = some i ∧ (latch c).rr (.storeBusy i) = false) ∧
    ((latch c).memReady.isSome → ((latch c).acquired 0).isSome) ∧
    ∀ o₁ c₁, cpuTick o₁ c = .ok c₁ →
      (∀ payload, (latch c).issuesStore = some payload → ∃ i ∈ memSlots,
        (latch c₁).rr (.storeBusy i) = true ∧
          (latch c₁).rm.storeReq i = storeRequest payload) ∧
      ∀ payload, (latch c).issuesLoad = some payload →
        (∃ i ∈ memSlots, (latch c₁).rr (.loadBusy i) = true ∧
          (latch c₁).rm.loadReq i = loadRequest payload) ∧
        ∀ o₂ c₂ o₃ c₃, cpuTick o₂ c₁ = .ok c₂ → cpuTick o₃ c₂ = .ok c₃ →
          (latch c₁).rm.memClear = false → (latch c₂).rm.memClear = false →
          ∃ msg, (latch c₂).sent c₂.plain.data 0 = some msg ∧
            msg ∈ (latch c₃).helperQueue 0 ∧ msg.key = payload.baseMsg.key ∧
            memGetSz c₂.plain.data payload.addr payload.size = some msg.result := by
  have inv := conserved_of_cpuRun image garbage hist hr
  have stores := storesOk_of_cpuRun image garbage hist hr
  have loads : LoadsOk (latch c) := (cpuRun_induction (I := fun s _ => Conserved s ∧ LoadsOk s)
    ⟨conserved_cpuCreate image garbage hist, loadsOk_cpuCreate image garbage hist⟩
    (fun inv st => ⟨inv.1.step st, inv.2.step inv.1 st⟩) hr).2
  obtain ⟨i, hi⟩ := Option.isSome_iff_exists.1 loads.loadSlot_isSome
  obtain ⟨j, hj⟩ := Option.isSome_iff_exists.1 stores.storeSlot_isSome
  refine ⟨⟨i, (loadSlot_spec hi).1, hi, (loadSlot_spec hi).2⟩,
    ⟨j, (storeSlot_spec hj).1, hj, (storeSlot_spec hj).2⟩, fun h => ?_, fun o₁ c₁ h₁ => ?_⟩
  · obtain ⟨k, hk⟩ := Option.isSome_iff_exists.1 h
    exact loads.acquired (inv.helper 0 (by decide)) (inv.control.busClear_of_memReady hk)
  · obtain ⟨p, st⟩ := step_of_cpuTick h₁
    refine ⟨fun payload h => ⟨j, (storeSlot_spec hj).1, ?_, ?_⟩, fun payload h => ⟨?_, ?_⟩⟩
    · exact st.raised.2 (.inr ⟨by simp [h], hj⟩)
    · exact st.written (r := .storeReq j) (.inr ⟨payload, h, hj, rfl⟩)
    · exact LoadsOk.issued_loadReq st h
    · intro o₂ c₂ o₃ c₃ h₂ h₃ hc₁ hc₂
      obtain ⟨p₁, st₁⟩ := step_of_cpuTick h₂
      obtain ⟨p₂, st₂⟩ := step_of_cpuTick h₃
      exact loads.handed inv st st₁ st₂ h hc₁ hc₂

end

omit [WideShift] in
theorem memory_slots_suffice_load :
    ∃ msg, @Latched.sent (latch (bootCpu 4 loadProgram)) .masked
        (bootCpu 4 loadProgram).plain.data 0 = some msg ∧
      msg ∈ (latch (bootCpu 5 loadProgram)).helperQueue 0 ∧ msg.key = (1, 0) ∧
      memGetSz (bootCpu 4 loadProgram).plain.data 0 LsSize.word = some msg.result :=
  ((@memory_slots_suffice .masked _ _ _ _ _ (cpuRun_boot (by decide +kernel))).2.2.2 _ _
    (@cpuTick_boot 2 loadProgram (by decide +kernel))).2
    ⟨.load, 0, LsSize.word, ⟨1, 0, 0⟩, false, 0⟩ (by decide +kernel) |>.2 _ _ _ _
    (cpuTick_boot (by decide +kernel)) (cpuTick_boot (by decide +kernel)) (by decide +kernel)
    (by decide +kernel)

end TomasuloCpu
