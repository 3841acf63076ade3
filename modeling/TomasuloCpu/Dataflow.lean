import TomasuloCpu.Wakeup

set_option autoImplicit false

/-!
# Results on their way

Where the tasks, messages and requests of a tick come from, and the invariant
rule for what they carry.
-/
namespace TomasuloCpu
open Clocked

/-- Properties of the tasks, messages, queued loads and requests in flight. -/
structure Flow (s : Latched) (T : AluTask → Prop) (M : CdbMessage → Prop)
    (L : LsQueuePayload → Prop) (R : MemLoadRequest → Prop) : Prop where
  task : ∀ a < aluCount, s.rr (.aluBusy a) = true → T (s.rm.aluTask a)
  buf : ∀ a < aluCount, (s.rm.resultBuf a).busy = true → M (s.rm.resultBuf a).msg
  helper : ∀ h < helperCount, ∀ msg ∈ s.helperQueue h, M msg
  bus : ∀ msg ∈ s.busQueue, M msg
  lsq : ∀ slot ∈ s.lsq, (s.rm.lsq.data slot).live = true → L (s.rm.lsq.data slot)
  mem : ∀ i ∈ memSlots, s.rr (.loadBusy i) = true → R (s.rm.loadReq i)

variable [WideShift] {s s' : Latched} {q p q' : Plain} {a h i : ℕ}

namespace Step
variable (st : Step s q p s' q')
include st

theorem aluTask_cases (hb : s'.rr (.aluBusy a) = true) :
    (∃ rs, s.aluStarts a = some rs ∧ s'.rm.aluTask a = rsTask (s.rm.rsPayload rs)) ∨
      (s.rr (.aluBusy a) = true ∧ s'.rm.aluTask a = s.rm.aluTask a) := by
  rcases st.cases (.aluTask a) with ⟨v, ⟨rs, hs, rfl⟩, hv⟩ | ⟨hn, hk⟩
  · exact .inl ⟨rs, hs, hv⟩
  · rcases st.raised.1 hb with ⟨-, -, -, -, hb⟩ | hs
    · exact .inr ⟨hb, hk⟩
    · obtain ⟨rs, hs⟩ := Option.isSome_iff_exists.1 hs
      exact absurd ⟨rs, hs, rfl⟩ (hn _)

theorem resultBuf_cases (hb : (s'.rm.resultBuf a).busy = true) :
    s'.rm.resultBuf a = s.rm.resultBuf a ∨ s.aluMsg a = some (s'.rm.resultBuf a).msg := by
  rcases st.cases (.resultBuf a) with
    ⟨v, ⟨-, ⟨-, rfl⟩ | ⟨msg, hm, ⟨-, -, rfl⟩ | ⟨-, -, rfl⟩⟩⟩, hv⟩ | ⟨-, hk⟩
  · have hv : s'.rm.resultBuf a = _ := hv
    simp [hv] at hb
  · have hv : s'.rm.resultBuf a = _ := hv
    simp [hv] at hb
  · have hv : s'.rm.resultBuf a = _ := hv
    rw [hv]
    exact .inr hm
  · exact .inl hk

theorem helper_cases (ctl : Control s) (ok : HelperOk s h) (hh : h < helperCount)
    {msg : CdbMessage} (hm : msg ∈ s'.helperQueue h) :
    msg ∈ s.helperQueue h ∨ s.outbox q.data h = some msg := by
  by_cases hb : s.rm.busClear = 0
  · rw [(st.helper ok hh hb).2, List.mem_append] at hm
    refine hm.imp ?_ ?_
    · split_ifs
      · exact List.mem_of_mem_tail
      · exact id
    · simp only [Latched.sent]
      split_ifs
      · exact Option.mem_toList.1
      · simp
  · rw [(st.helper_clear ctl hb ok hh).2] at hm
    cases hm

theorem bus_cases (ok : ∀ h < helperCount, HelperOk s h) {msg : CdbMessage}
    (hm : msg ∈ s'.busQueue) : ∃ h < helperCount, msg ∈ s.helperQueue h := by
  have hg : ∀ h, msg ∈ s.granted h → msg ∈ s.helperQueue h := fun h hm => by
    simp only [Latched.granted] at hm
    split_ifs at hm
    · exact List.mem_of_mem_take hm
    · cases hm
  rw [st.busQueue ok, List.mem_append, List.mem_append] at hm
  rcases hm with (hm | hm) | hm
  · exact ⟨0, by decide, hg 0 hm⟩
  · exact ⟨1, by decide, hg 1 hm⟩
  · exact ⟨2, by decide, hg 2 hm⟩

theorem lsq_cases (ctl : Control s) {slot : ℤ} (hs : slot ∈ s'.lsq)
    (hl : (s'.rm.lsq.data slot).live = true) :
    (slot ∈ s.lsq ∧ s'.rm.lsq.data slot = s.rm.lsq.data slot) ∨
      ∃ rs, s.loadPick = some rs ∧ s'.rm.lsq.data slot = rsLoadPayload (s.rm.rsPayload rs) := by
  rcases st.lsq_mem ctl hs with hs | ⟨payload, hp, hd⟩
  · rcases st.cases (.lsq (.data slot)) with ⟨v, ⟨-, -, -, rfl⟩ | ⟨rfl, -⟩, hv⟩ | ⟨-, hk⟩
    · have hv : s'.rm.lsq.data slot = _ := hv
      simp [hv, LsQueuePayload.live] at hl
    · exact absurd hs ctl.lsq.tail_notMem
    · exact .inl ⟨hs, hk⟩
  · rcases st.lsqPushes_iff.2 hp with ⟨rs, hpick, -, rfl⟩ | ⟨-, rfl⟩
    · exact .inr ⟨rs, hpick, hd⟩
    · rw [hd] at hl
      cases hl

theorem loadReq_cases (hb : s'.rr (.loadBusy i) = true) :
    (s.rm.memClear = false ∧ i ∈ memSlots ∧ s.rr (.loadBusy i) = true ∧ s'.rm.loadReq i =
      { s.rm.loadReq i with ticksRemaining := (s.rm.loadReq i).ticksRemaining - 1 }) ∨
      ∃ payload, s.issuesLoad = some payload ∧ s'.rm.loadReq i = loadRequest payload := by
  rcases st.raised.1 hb with ⟨hc, hi, hb, -⟩ | ⟨hl, hs⟩
  · exact .inl ⟨hc, hi, hb, st.loadReq_busy hc hi hb⟩
  · obtain ⟨payload, hl⟩ := Option.isSome_iff_exists.1 hl
    exact .inr ⟨payload, hl, st.loadReq_issue hl hs⟩

end Step

omit [WideShift] in
theorem issuesLoad_spec (ctl : Control s) {payload : LsQueuePayload}
    (h : s.issuesLoad = some payload) :
    ∃ slot ∈ s.lsq, s.rm.lsq.data slot = payload ∧ payload.live = true ∧
      s.lsqPop = some slot := by
  simp only [Latched.issuesLoad, Latched.lsqIssue, Option.filter_eq_some_iff,
    Option.map_eq_some_iff] at h
  obtain ⟨⟨⟨slot, hp, rfl⟩, hc⟩, ho⟩ := h
  refine ⟨slot, ?_, rfl, ?_, hp⟩
  · rw [lsq_pop ctl hp]
    exact List.mem_cons_self
  · simpa [LsQueuePayload.live] using ⟨of_decide_eq_true ho, by simpa using hc⟩

namespace Flow
variable {T T' : AluTask → Prop} {M M' : CdbMessage → Prop} {L L' : LsQueuePayload → Prop}
  {R R' : MemLoadRequest → Prop} (flow : Flow s T M L R)
include flow

omit [WideShift] in
theorem mono (hT : ∀ t, T t → T' t) (hM : ∀ m, M m → M' m) (hL : ∀ l, L l → L' l)
    (hR : ∀ r, R r → R' r) : Flow s T' M' L' R' where
  task := fun a ha hb => hT _ (flow.task a ha hb)
  buf := fun a ha hb => hM _ (flow.buf a ha hb)
  helper := fun h hh msg hm => hM _ (flow.helper h hh msg hm)
  bus := fun msg hm => hM _ (flow.bus msg hm)
  lsq := fun slot hs hl => hL _ (flow.lsq slot hs hl)
  mem := fun i hi hb => hR _ (flow.mem i hi hb)

/-- What the units make of good stations, tasks and requests is good. -/
theorem step (inv : Conserved s) (st : Step s q p s' q')
    (hT : ∀ a rs, s.aluStarts a = some rs → T (rsTask (s.rm.rsPayload rs)))
    (hTM : ∀ a < aluCount, s.rr (.aluBusy a) = true → T (s.rm.aluTask a) →
      ∀ result, aluExecute (s.rm.aluTask a).op (s.rm.aluTask a).value1 (s.rm.aluTask a).value2 =
        some result → M { (s.rm.aluTask a).baseMsg with result := result })
    (hL : ∀ rs, s.loadPick = some rs → L (rsLoadPayload (s.rm.rsPayload rs)))
    (hLR : ∀ l, L l → R (loadRequest l))
    (hR : ∀ r t, R r → R { r with ticksRemaining := t })
    (hRM : ∀ i, s.memReady = some i → R (s.rm.loadReq i) → ∀ msg, s.memMsg q.data i = some msg →
      M msg) : Flow s' T M L R := by
  have halu : ∀ a < aluCount, ∀ msg, s.aluMsg a = some msg → M msg := by
    intro a ha msg hm
    simp only [Latched.aluMsg] at hm
    split_ifs at hm with _ hb hbusy
    · cases hm
      exact flow.buf a ha hb
    · obtain ⟨result, he, rfl⟩ := Option.map_eq_some_iff.1 hm
      exact hTM a ha hbusy (flow.task a ha hbusy) result he
  have hout : ∀ h < helperCount, ∀ msg, s.outbox q.data h = some msg → M msg := by
    intro h hh msg hm
    cases h with
    | zero =>
      obtain ⟨i, hi, hm⟩ := Option.bind_eq_some_iff.1 hm
      obtain ⟨-, hs, hb, -⟩ := memReady_spec hi
      exact hRM i hi (flow.mem i hs hb) msg hm
    | succ a => exact halu a (by simp only [helperCount, aluCount] at hh ⊢; omega) msg hm
  constructor
  · intro a ha hb
    rcases st.aluTask_cases hb with ⟨rs, hs, h⟩ | ⟨hb, h⟩
    · rw [h]
      exact hT a rs hs
    · rw [h]
      exact flow.task a ha hb
  · intro a ha hb
    rcases st.resultBuf_cases hb with h | h
    · rw [h] at hb ⊢
      exact flow.buf a ha hb
    · exact halu a ha _ h
  · intro h hh msg hm
    rcases st.helper_cases inv.control (inv.helper h hh) hh hm with hm | hm
    · exact flow.helper h hh msg hm
    · exact hout h hh msg hm
  · intro msg hm
    obtain ⟨h, hh, hm⟩ := st.bus_cases inv.helper hm
    exact flow.helper h hh msg hm
  · intro slot hs hl
    rcases st.lsq_cases inv.control hs hl with ⟨hs, h⟩ | ⟨rs, hp, h⟩
    · rw [h] at hl ⊢
      exact flow.lsq slot hs hl
    · rw [h]
      exact hL rs hp
  · intro i hi hb
    rcases st.loadReq_cases hb with ⟨-, -, hb, h⟩ | ⟨payload, hp, h⟩
    · rw [h]
      exact hR _ _ (flow.mem i hi hb)
    · rw [h]
      obtain ⟨slot, hs, rfl, hl, -⟩ := issuesLoad_spec inv.control hp
      exact hLR _ (flow.lsq slot hs hl)

end Flow

omit [WideShift] in
theorem flow_carriers : Flow s (fun t => t.baseMsg.key ∈ s.carriers) (fun m => m.key ∈ s.carriers)
    (fun l => l.baseMsg.key ∈ s.carriers) (fun r => r.baseMsg.key ∈ s.carriers) := by
  have halu : ∀ a < aluCount, ∀ k ∈ s.aluKeys a, k ∈ s.carriers := by
    intro a ha k hk
    simp only [aluCount] at ha
    simp only [Latched.carriers, List.mem_append]
    obtain rfl | rfl : a = 0 ∨ a = 1 := by omega
    · simp [hk]
    · simp [hk]
  constructor
  · exact fun a ha hb => halu a ha _ (by simp [Latched.aluKeys, hb])
  · exact fun a ha hb => halu a ha _ (by simp [Latched.aluKeys, hb])
  · intro h hh msg hm
    have hk : msg.key ∈ s.helperKeys h := List.mem_map_of_mem hm
    simp only [helperCount] at hh
    simp only [Latched.carriers, List.mem_append]
    obtain rfl | rfl | rfl : h = 0 ∨ h = 1 ∨ h = 2 := by omega
    all_goals simp [hk]
  · intro msg hm
    have hk : msg.key ∈ s.busKeys := List.mem_map_of_mem hm
    simp [Latched.carriers, hk]
  · intro slot hs hl
    have hk : (s.rm.lsq.data slot).baseMsg.key ∈ s.lsqKeys :=
      List.mem_map.2 ⟨slot, List.mem_filter.2 ⟨hs, hl⟩, rfl⟩
    simp only [Latched.carriers, List.mem_append]
    exact .inl (.inr hk)
  · intro i hi hb
    have hk : (s.rm.loadReq i).baseMsg.key ∈ s.memKeys :=
      List.mem_map.2 ⟨i, List.mem_filter.2 ⟨hi, hb⟩, rfl⟩
    simp only [Latched.carriers, List.mem_append]
    exact .inr hk

namespace Flow
variable {T T' : AluTask → Prop} {M M' : CdbMessage → Prop} {L L' : LsQueuePayload → Prop}
  {R R' : MemLoadRequest → Prop} (flow : Flow s T M L R)
include flow

omit [WideShift] in
theorem and (flow' : Flow s T' M' L' R') : Flow s (fun t => T t ∧ T' t) (fun m => M m ∧ M' m)
    (fun l => L l ∧ L' l) (fun r => R r ∧ R' r) where
  task := fun a ha hb => ⟨flow.task a ha hb, flow'.task a ha hb⟩
  buf := fun a ha hb => ⟨flow.buf a ha hb, flow'.buf a ha hb⟩
  helper := fun h hh msg hm => ⟨flow.helper h hh msg hm, flow'.helper h hh msg hm⟩
  bus := fun msg hm => ⟨flow.bus msg hm, flow'.bus msg hm⟩
  lsq := fun slot hs hl => ⟨flow.lsq slot hs hl, flow'.lsq slot hs hl⟩
  mem := fun i hi hb => ⟨flow.mem i hi hb, flow'.mem i hi hb⟩

/-- The invariant rule: what is good in a state stays good if it is so for the
    entries that are carried, and good stations yield good results. -/
theorem advance (inv : Conserved s) (st : Step s q p s' q')
    (hT : ∀ a rs, s.aluStarts a = some rs → T (rsTask (s.rm.rsPayload rs)))
    (hTM : ∀ a < aluCount, s.rr (.aluBusy a) = true → T (s.rm.aluTask a) →
      ∀ result, aluExecute (s.rm.aluTask a).op (s.rm.aluTask a).value1 (s.rm.aluTask a).value2 =
        some result → M { (s.rm.aluTask a).baseMsg with result := result })
    (hL : ∀ rs, s.loadPick = some rs → L (rsLoadPayload (s.rm.rsPayload rs)))
    (hLR : ∀ l, L l → R (loadRequest l))
    (hR : ∀ r t, R r → R { r with ticksRemaining := t })
    (hRM : ∀ i, s.memReady = some i → R (s.rm.loadReq i) → ∀ msg, s.memMsg q.data i = some msg →
      M msg)
    (tT : ∀ t : AluTask, t.baseMsg.key ∈ s.carriers → T t → T' t)
    (tM : ∀ m : CdbMessage, m.key ∈ s.carriers → M m → M' m)
    (tL : ∀ l : LsQueuePayload, l.baseMsg.key ∈ s.carriers → L l → L' l)
    (tR : ∀ r : MemLoadRequest, r.baseMsg.key ∈ s.carriers → R r → R' r) :
    Flow s' T' M' L' R' := by
  have hrs : ∀ rs ∈ stations, s.rm.rsBusy rs = true → s.rsKey rs ∈ s.carriers :=
    fun rs hr hb => Conserved.mem_rsKeys hr hb
  have hstart : ∀ a rs, s.aluStarts a = some rs → s.rsKey rs ∈ s.carriers := by
    intro a rs hs
    obtain ⟨hr, hb⟩ := freed_busy (mem_freed.2 (.inl ⟨a, aluFrees_of_starts hs⟩))
    exact hrs rs hr hb
  have hpick : ∀ rs, s.loadPick = some rs → s.rsKey rs ∈ s.carriers := by
    intro rs hs
    obtain ⟨hr, hb⟩ := freed_busy (mem_freed.2 (.inr (.inl hs)))
    exact hrs rs hr hb
  refine (Flow.step (flow_carriers.and flow) inv st (fun a rs hs => ⟨hstart a rs hs, hT a rs hs⟩)
    (fun a ha hb ht result he => ⟨ht.1, hTM a ha hb ht.2 result he⟩)
    (fun rs hs => ⟨hpick rs hs, hL rs hs⟩) (fun l hl => ⟨hl.1, hLR l hl.2⟩)
    (fun r t hr => ⟨hr.1, hR r t hr.2⟩)
    (fun i hi hr msg hm => ⟨?_, hRM i hi hr.2 msg hm⟩)).mono (fun t ht => tT t ht.1 ht.2)
    (fun m hm => tM m hm.1 hm.2) (fun l hl => tL l hl.1 hl.2) (fun r hr => tR r hr.1 hr.2)
  rw [memMsg_key hm]
  exact hr.1

end Flow

theorem Conserved.ready_cases (inv : Conserved s) (st : Step s q p s' q')
    (hc : s.rm.robs.clear = false) {slot : ℤ} (hs : slot ∈ s'.robs)
    (hr : s'.rm.robReady slot = true) : slot ∈ s.robs ∧
      ((s.rm.robReady slot = true ∧ s'.rm.robPayload slot = s.rm.robPayload slot) ∨
      (s.rm.robReady slot = false ∧ ∃ msg, s.delivered = some msg ∧ msg.rob = robId slot ∧
        s'.rm.robPayload slot = robMsgPayload (s.rm.robPayload slot) msg) ∨
      (s.rm.robReady slot = false ∧ ∃ rs, s.storeFrees = some rs ∧
        slot = robSlot (s.rm.rsPayload rs).dest ∧ s'.rm.robPayload slot = s.storeEntry rs)) := by
  rcases (st.mem_robs inv.control hc).1 hs with ⟨hm, hh⟩ | ⟨hd, rfl⟩
  · refine ⟨hm, ?_⟩
    cases hr' : s.rm.robReady slot
    · rw [st.robReady_iff inv.control hc hm hh] at hr
      rcases hr with hr | ⟨msg, hd, he⟩ | ⟨rs, hf, rfl⟩
      · simp [hr'] at hr
      · exact .inr (.inl ⟨rfl, msg, hd, he, st.written (r := .robPayload slot)
          (.inl ⟨hc, hm, msg, hd, he, rfl⟩)⟩)
      · exact .inr (.inr ⟨rfl, rs, hf, rfl, st.written (r := .robPayload _)
          (.inr (.inl ⟨rs, storePick_of_frees hf, rfl, rfl⟩))⟩)
    · exact .inl ⟨rfl, (inv.stable st hm hr' hs).2⟩
  · rw [st.robReady_dispatch hd] at hr
    cases hr

omit [WideShift] in
theorem mem_busQueue {msg : CdbMessage} (h : s.delivered = some msg) : msg ∈ s.busQueue := by
  have h := busGetData_of_delivered h
  simp only [busGetData] at h
  split_ifs at h with hf
  cases h
  simp [Latched.busQueue, hf]

end TomasuloCpu
