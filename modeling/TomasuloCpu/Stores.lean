import TomasuloCpu.Squash

set_option autoImplicit false

/-!
# Stores after their commit

A retired store passes from the load-store queue through a slot to memory; the
three of them hold the retired stores in order.
-/
namespace TomasuloCpu
open Clocked

def LsQueuePayload.store? (payload : LsQueuePayload) : Option (Addr × Word × LsSize) :=
  if payload.op = .store then some (payload.addr, payload.value, payload.size) else none

def RobPayload.store? (data : RobPayload) : Option (Addr × Word × LsSize) :=
  if data.op = .store then some (data.addr, data.value, data.size) else none

def Plain.retiredStores (q : Plain) : List (Addr × Word × LsSize) :=
  q.retired.filterMap RobPayload.store?

/-- The slots of the stores that are issued but not performed, in the order of
    their issues. -/
def Plain.inFlight (q : Plain) : List ℕ := q.issued.drop q.performed.length

def Latched.lsqStores (s : Latched) : List (Addr × Word × LsSize) :=
  s.lsq.filterMap fun slot => (s.rm.lsq.data slot).store?

/-- The slots in flight are the busy ones, one of them due in each of the next ticks,
    and no retired store is missing. -/
structure StoresOk (s : Latched) (q : Plain) : Prop where
  notCleared : ∀ slot ∈ s.lsq, (s.rm.lsq.data slot).op = .store →
    (s.rm.lsq.data slot).cleared = false
  le : q.performed.length ≤ q.issued.length
  busy : ∀ i, i ∈ q.inFlight ↔ i ∈ memSlots ∧ s.rr (.storeBusy i) = true
  ticks : (q.inFlight.map fun i => (s.rm.storeReq i).ticksRemaining) ∈
    [[], [1], [2], [1, 2]]
  order : q.performed ++ q.inFlight.map s.storeIn ++ s.lsqStores = q.retiredStores

variable [WideShift] {s s' : Latched} {q p q' : Plain}

omit [WideShift] in
/-- A store in flight is done before a load that starts now. -/
theorem StoresOk.ticks_bounds (so : StoresOk s q) {i : ℕ} (hi : i ∈ q.inFlight) :
    0 < (s.rm.storeReq i).ticksRemaining ∧ (s.rm.storeReq i).ticksRemaining < memTicks := by
  have hm : (s.rm.storeReq i).ticksRemaining ∈
      q.inFlight.map fun i => (s.rm.storeReq i).ticksRemaining := List.mem_map_of_mem hi
  have htk := so.ticks
  simp only [List.mem_cons, List.not_mem_nil, or_false] at htk
  rcases htk with h | h | h | h <;> rw [h] at hm <;>
    simp only [List.mem_cons, List.not_mem_nil, or_false] at hm <;>
    simp only [memTicks] <;> omega

omit [WideShift] in
theorem storesHead_iff : s.storesHead = true ↔ s.retires = true ∧ s.head.op = .store := by
  simp only [Latched.storesHead, Latched.retires, Bool.and_eq_true, decide_eq_true_eq]
  constructor
  · rintro ⟨⟨hc, ho⟩, hf⟩
    exact ⟨⟨hc, by simpa [ho] using hf⟩, ho⟩
  · rintro ⟨⟨hc, hr⟩, ho⟩
    exact ⟨⟨hc, ho⟩, by simpa [ho] using hr⟩

omit [WideShift] in
theorem storeSlot_spec {i : ℕ} (h : s.storeSlot = some i) :
    i ∈ memSlots ∧ s.rr (.storeBusy i) = false := by
  have h : memSlots.find? (fun i => !s.rr (.storeBusy i)) = some i := h
  exact ⟨List.mem_of_find?_eq_some h, by simpa using List.find?_some h⟩

omit [WideShift] in
theorem mem_performs {i : ℕ} (hc : s.rm.memClear = false) : i ∈ s.performs ↔
    i ∈ memSlots ∧ s.rr (.storeBusy i) = true ∧ (s.rm.storeReq i).ticksRemaining = 1 := by
  simp only [Latched.performs, hc, Bool.false_eq_true, ↓reduceIte, List.mem_filter, memStoreDone,
    Bool.and_eq_true, decide_eq_true_eq]
  refine and_congr_right fun _ => and_congr_right fun _ => ?_
  omega

namespace StoresOk
variable (ok : StoresOk s q)
include ok

omit [WideShift] in
/-- The store that a tick performs is the oldest one in flight; the others get due. -/
theorem performs_eq (hc : s.rm.memClear = false) : ∃ rest, q.inFlight = s.performs ++ rest ∧
    (rest = [] ∨ ∃ i, rest = [i] ∧ (s.rm.storeReq i).ticksRemaining = 2) := by
  have hmem : ∀ i, i ∈ s.performs ↔ i ∈ q.inFlight ∧ (s.rm.storeReq i).ticksRemaining = 1 :=
    fun i => by rw [mem_performs hc, ok.busy, and_assoc]
  have hnd : s.performs.Nodup := by
    rw [Latched.performs]
    split_ifs
    · exact List.nodup_nil
    · exact memSlots_nodup.filter _
  have hone : ∀ i, (∀ j, j ∈ s.performs ↔ j = i) → s.performs = [i] := fun i h =>
    List.perm_singleton.1 ((List.perm_ext_iff_of_nodup hnd (List.nodup_singleton i)).2 (by simpa))
  have hnone : (∀ j, j ∉ s.performs) → s.performs = [] := List.eq_nil_iff_forall_not_mem.2
  have ht := ok.ticks
  rcases hF : q.inFlight with _ | ⟨i, _ | ⟨j, _ | ⟨k, l⟩⟩⟩ <;> rw [hF] at ht hmem
  · have hp : s.performs = [] := hnone fun j => by simp [hmem]
    exact ⟨[], by rw [hp]; rfl, .inl rfl⟩
  · simp only [List.map_cons, List.map_nil, List.mem_cons, List.cons.injEq, and_true,
      List.not_mem_nil, or_false, reduceCtorEq, false_or, and_false] at ht
    rcases ht with ht | ht
    · have hp : s.performs = [i] := hone i fun j => by
        rw [hmem, List.mem_singleton]
        exact ⟨And.left, fun he => ⟨he, he ▸ ht⟩⟩
      exact ⟨[], by rw [hp]; rfl, .inl rfl⟩
    · have hp : s.performs = [] := hnone fun j => by
        rw [hmem, List.mem_singleton]
        rintro ⟨rfl, h⟩
        omega
      exact ⟨[i], by rw [hp]; rfl, .inr ⟨i, rfl, ht⟩⟩
  · simp only [List.map_cons, List.map_nil, List.mem_cons, List.cons.injEq, and_true,
      List.not_mem_nil, or_false, reduceCtorEq, false_or, and_false] at ht
    have hp : s.performs = [i] := hone i fun k => by
      rw [hmem]
      simp only [List.mem_cons, List.not_mem_nil, or_false]
      constructor
      · rintro ⟨rfl | rfl, h⟩
        · rfl
        · omega
      · rintro rfl
        exact ⟨.inl rfl, ht.1⟩
    exact ⟨[j], by rw [hp]; rfl, .inr ⟨j, rfl, ht.2⟩⟩
  · simp at ht

omit [WideShift] in
theorem inFlight_nodup : q.inFlight.Nodup := by
  refine List.Nodup.of_map (fun i => (s.rm.storeReq i).ticksRemaining) ?_
  have h := ok.ticks
  simp only [List.mem_cons, List.not_mem_nil, or_false] at h
  rcases h with h | h | h | h <;> rw [h] <;> decide

end StoresOk

namespace Step
variable (st : Step s q p s' q') (ctl : Control s)
include st ctl

omit ctl in
theorem issued_storeReq {payload : LsQueuePayload} (h : s.issuesStore = some payload) :
    ∃ i, s.issued = some i ∧ s'.rm.storeReq i = storeRequest payload := by
  obtain ⟨i, hi⟩ := Option.isSome_iff_exists.1 (st.storeSlot (by simp [h]))
  exact ⟨i, by simp [Latched.issued, h, hi],
    st.written (r := .storeReq i) (.inr ⟨payload, h, hi, rfl⟩)⟩

omit ctl in
theorem push_store : s.lsqPush.toList.filterMap LsQueuePayload.store? =
    s.retired.toList.filterMap RobPayload.store? := by
  cases hs : s.storesHead
  · have hl : s.lsqPush.toList.filterMap LsQueuePayload.store? = [] := by
      simp only [Latched.lsqPush, hs]
      cases s.loadPick <;> simp [LsQueuePayload.store?, rsLoadPayload]
    have hr : s.retired.toList.filterMap RobPayload.store? = [] := by
      rw [Latched.retired]
      split_ifs with hr
      · have ho : s.head.op ≠ .store := fun ho => by
          simp [storesHead_iff.2 ⟨hr, ho⟩] at hs
        simp [RobPayload.store?, ho]
      · rfl
    rw [hl, hr]
  · obtain ⟨hr, ho⟩ := storesHead_iff.1 hs
    have hp := st.lsqPushes_iff.1 (.inr ⟨hs, rfl⟩)
    simp [hp, Latched.retired, hr, RobPayload.store?, ho, LsQueuePayload.store?, robStorePayload]

theorem lsqStores_eq (hc : s.rm.lsqClear = false) :
    (s.lsqPop.toList.map s.rm.lsq.data).filterMap LsQueuePayload.store? ++ s'.lsqStores =
      s.lsqStores ++ s.retired.toList.filterMap RobPayload.store? := by
  have h := congrArg (List.filterMap LsQueuePayload.store?) (st.lsqPayloads ctl hc)
  simp only [List.filterMap_append, st.push_store, List.filterMap_map] at h
  rw [List.filterMap_map]
  exact h

theorem lsqStores_kept (hc : s.rm.robs.clear = true) : s'.lsqStores = s.lsqStores := by
  have hl := (st.lsq_kept ctl hc).1
  rw [Latched.lsqStores, Latched.lsqStores, hl]
  refine List.filterMap_congr fun slot hs => ?_
  rcases st.cases (.lsq (.data slot)) with ⟨v, ⟨-, -, ho, rfl⟩ | ⟨rfl, -⟩, hv⟩ | ⟨-, hk⟩
  · have hv : s'.rm.lsq.data slot = _ := hv
    simp [hv, LsQueuePayload.store?, ho]
  · exact absurd hs ctl.lsq.tail_notMem
  · have hk : s'.rm.lsq.data slot = s.rm.lsq.data slot := hk
    rw [hk]

end Step

namespace StoresOk
variable (ok : StoresOk s q) (ctl : Control s) (st : Step s q p s' q')
include ok ctl st

omit [WideShift] st in
theorem pop_store : (s.lsqPop.toList.map s.rm.lsq.data).filterMap LsQueuePayload.store? =
    s.issuesStore.toList.map fun payload => (payload.addr, payload.value, payload.size) := by
  rw [Latched.issuesStore, Latched.lsqIssue]
  cases hp : s.lsqPop with
  | none => rfl
  | some slot =>
    have hs : slot ∈ s.lsq := by
      rw [lsq_pop ctl hp]
      exact List.mem_cons_self
    have hc := ok.notCleared slot hs
    cases hop : (s.rm.lsq.data slot).op
    · cases hcl : (s.rm.lsq.data slot).cleared <;>
        simp [LsQueuePayload.store?, Option.filter_some, hop, hcl]
    · simp [LsQueuePayload.store?, Option.filter_some, hop, hc hop]

theorem step_notCleared {slot : ℤ} (hs : slot ∈ s'.lsq)
    (ho : (s'.rm.lsq.data slot).op = .store) : (s'.rm.lsq.data slot).cleared = false := by
  rcases st.lsq_mem ctl hs with hs | ⟨payload, hp, hd⟩
  · rcases st.cases (.lsq (.data slot)) with ⟨v, ⟨-, -, hl, rfl⟩ | ⟨rfl, -⟩, hv⟩ | ⟨-, hk⟩
    · have hv : s'.rm.lsq.data slot = _ := hv
      rw [hv] at ho
      exact absurd (hl.symm.trans ho) (by decide)
    · exact absurd hs ctl.lsq.tail_notMem
    · have hk : s'.rm.lsq.data slot = s.rm.lsq.data slot := hk
      rw [hk] at ho ⊢
      exact ok.notCleared slot hs ho
  · rw [hd]
    rcases st.lsqPushes_iff.2 hp with ⟨rs, -, -, rfl⟩ | ⟨-, rfl⟩ <;> rfl

theorem step_clear (hc : s.rm.robs.clear = true) : StoresOk s' q' := by
  have hm := ctl.memClear.trans hc
  have hperf : q'.performed = q.performed := by simp [st.performed, Latched.performs, hm]
  have hissued : q'.issued = q.issued := by
    simp [st.issued, Latched.issued, Latched.issuesStore, Latched.lsqIssue, Latched.lsqPop,
      ctl.lsqClear.trans hc]
  have hret : q'.retired = q.retired := by
    simp [st.retired, Latched.retired, Latched.retires, Latched.commits, hc]
  have hF : q'.inFlight = q.inFlight := by rw [Plain.inFlight, Plain.inFlight, hperf, hissued]
  have hslot : ∀ i ∈ q.inFlight, s'.rm.storeReq i = s.rm.storeReq i := fun i hi =>
    (st.storeSlots_kept ctl hc ((ok.busy i).1 hi).1).2
  refine
    { notCleared := fun slot hs ho => ok.step_notCleared ctl st hs ho
      le := by rw [hperf, hissued]; exact ok.le
      busy := fun i => ?_
      ticks := ?_
      order := ?_ }
  · rw [hF, ok.busy]
    exact and_congr_right fun hi => by rw [(st.storeSlots_kept ctl hc hi).1]
  · have h := ok.ticks
    rw [hF]
    rwa [List.map_congr_left fun i hi => by rw [hslot i hi]]
  · have hin : q.inFlight.map s'.storeIn = q.inFlight.map s.storeIn :=
      List.map_congr_left fun i hi => by simp only [Latched.storeIn, hslot i hi]
    rw [hF, hperf, hin, st.lsqStores_kept ctl hc, Plain.retiredStores, hret]
    exact ok.order

omit ok ctl in
theorem storeIn_issued : s.issued.toList.map s'.storeIn =
    s.issuesStore.toList.map fun payload => (payload.addr, payload.value, payload.size) := by
  cases hi : s.issuesStore with
  | none => simp [Latched.issued, hi]
  | some payload =>
    obtain ⟨i, his, hreq⟩ := st.issued_storeReq hi
    simp [his, Latched.storeIn, hreq, storeRequest]

theorem step : StoresOk s' q' := by
  cases hc : s.rm.robs.clear
  · have hm := ctl.memClear.trans hc
    obtain ⟨rest, hF, hrest⟩ := ok.performs_eq hm
    have hnd := ok.inFlight_nodup
    rw [hF] at hnd
    have hle := congrArg List.length hF
    simp only [Plain.inFlight, List.length_drop, List.length_append] at hle
    have hF' : q'.inFlight = rest ++ s.issued.toList := by
      have hle' := ok.le
      rw [Plain.inFlight, st.issued, st.performed, List.length_append, List.length_map,
        List.drop_append_of_le_length (by omega), ← List.drop_drop]
      rw [show q.issued.drop q.performed.length = s.performs ++ rest from hF, List.drop_left]
    have hbusy : ∀ i ∈ rest, i ∈ memSlots ∧ s.rr (.storeBusy i) = true ∧ i ∉ s.performs :=
      fun i hi => by
        have := (ok.busy i).1 (by rw [hF]; exact List.mem_append_right _ hi)
        exact ⟨this.1, this.2, fun hp => (List.nodup_append.1 hnd).2.2 i hp i hi rfl⟩
    have hslot : ∀ i ∈ rest, s'.rm.storeReq i =
        { s.rm.storeReq i with ticksRemaining := (s.rm.storeReq i).ticksRemaining - 1 } :=
      fun i hi => st.written (r := .storeReq i) (.inl ⟨hm, (hbusy i hi).1, (hbusy i hi).2.1, rfl⟩)
    have hnew : ∀ i, i ∈ s.issued.toList ↔ s.issuesStore.isSome ∧ s.storeSlot = some i := by
      intro i
      rw [Option.mem_toList, Latched.issued]
      cases s.issuesStore.isSome <;> simp
    have hdone : ∀ i ∈ memSlots, memStoreDone s i = false ↔ i ∉ s.performs := by
      intro i hi
      simp [Latched.performs, hm, hi]
    refine
      { notCleared := fun slot hs ho => ok.step_notCleared ctl st hs ho
        le := ?_
        busy := fun i => ?_
        ticks := ?_
        order := ?_ }
    · have := ok.le
      rw [st.performed, st.issued, List.length_append, List.length_append, List.length_map]
      omega
    · rw [hF', List.mem_append, hnew, st.raised]
      constructor
      · rintro (hi | ⟨hi, hs⟩)
        · obtain ⟨h₁, h₂, h₃⟩ := hbusy i hi
          exact ⟨h₁, .inl ⟨h₁, h₂, .inr ((hdone i h₁).2 h₃)⟩⟩
        · exact ⟨(storeSlot_spec hs).1, .inr ⟨hi, hs⟩⟩
      · rintro ⟨-, ⟨h₁, h₂, h₃⟩ | h⟩
        · have h₃ := (hdone i h₁).1 (h₃.resolve_left (by simp [hm]))
          have hi := (ok.busy i).2 ⟨h₁, h₂⟩
          rw [hF, List.mem_append] at hi
          exact .inl (hi.resolve_left h₃)
        · exact .inr h
    · -- what was due in two ticks is due in one, what is issued in two
      have hone : ∀ i ∈ s.issued.toList, (s'.rm.storeReq i).ticksRemaining = 2 := by
        intro i hi
        obtain ⟨payload, hp⟩ := Option.isSome_iff_exists.1 ((hnew i).1 hi).1
        obtain ⟨j, hj, hreq⟩ := st.issued_storeReq hp
        rw [Option.mem_toList, hj] at hi
        cases hi
        rw [hreq]
        rfl
      rw [hF']
      rcases hrest with rfl | ⟨i, rfl, ht⟩
      · cases hi : s.issued with
        | none => simp
        | some j => simp [hone j (by simp [hi])]
      · have hti : (s'.rm.storeReq i).ticksRemaining = 1 := by
          rw [hslot i (by simp), ht]
          rfl
        cases hi : s.issued with
        | none => simp [hti]
        | some j => simp [hti, hone j (by simp [hi])]
    · have horder := ok.order
      have hq := st.lsqStores_eq ctl (ctl.lsqClear.trans hc)
      rw [ok.pop_store ctl, ← storeIn_issued st] at hq
      have hin : rest.map s'.storeIn = rest.map s.storeIn :=
        List.map_congr_left fun i hi => by simp only [Latched.storeIn, hslot i hi]
      rw [hF', st.performed, Plain.retiredStores, st.retired, List.filterMap_append,
        List.map_append, hin]
      calc q.performed ++ s.performs.map s.storeIn ++
            (rest.map s.storeIn ++ s.issued.toList.map s'.storeIn) ++ s'.lsqStores
          = q.performed ++ (s.performs ++ rest).map s.storeIn ++
              (s.issued.toList.map s'.storeIn ++ s'.lsqStores) := by simp
        _ = q.performed ++ q.inFlight.map s.storeIn ++ s.lsqStores ++
              s.retired.toList.filterMap RobPayload.store? := by simp [hq, hF]
        _ = q.retiredStores ++ s.retired.toList.filterMap RobPayload.store? := by rw [horder]
  · exact ok.step_clear ctl st hc

end StoresOk

section
variable (image : MemData) (garbage : ℤ → ℤ → ℤ) (hist : ℤ)

omit [WideShift] in
theorem storesOk_cpuCreate :
    StoresOk (latch (cpuCreate image garbage hist)) (cpuCreate image garbage hist).plain where
  notCleared := fun _ hs => by cases hs
  le := Nat.le_refl 0
  busy := fun i => by
    constructor
    · intro h
      cases h
    · rintro ⟨-, h⟩
      cases h
  ticks := List.mem_cons_self
  order := rfl

theorem storesOk_of_cpuRun {os : List Schedule} {c : Cpu}
    (hr : cpuRun os (cpuCreate image garbage hist) = .ok c) : StoresOk (latch c) c.plain :=
  (cpuRun_induction (I := fun s q => Control s ∧ StoresOk s q)
    ⟨control_cpuCreate image garbage hist, storesOk_cpuCreate image garbage hist⟩
    (fun inv st => ⟨st.control inv.1, inv.2.step inv.1 st⟩) hr).2

/-- On every run that trips no assertion the stores that memory performed, those in
    the busy slots in the order of their issues and those in the load-store queue are
    the retired stores in the order of their commits. -/
theorem stores_in_order {os : List Schedule} {c : Cpu}
    (hr : cpuRun os (cpuCreate image garbage hist) = .ok c) :
    c.plain.performed ++ c.plain.inFlight.map (latch c).storeIn ++ (latch c).lsqStores =
        c.plain.retiredStores ∧
      c.plain.inFlight.Perm (memSlots.filter fun i => (latch c).rr (.storeBusy i)) := by
  have ok := storesOk_of_cpuRun image garbage hist hr
  refine ⟨ok.order, (List.perm_ext_iff_of_nodup ok.inFlight_nodup
    (memSlots_nodup.filter _)).2 fun i => ?_⟩
  rw [ok.busy, List.mem_filter]

end

omit [WideShift] in
/-- One store is performed, one is in its slot and one waits in the queue. -/
theorem stores_in_order_three :
    (bootCpu 8 threeStoresProgram).plain.performed ++
      (bootCpu 8 threeStoresProgram).plain.inFlight.map
        (latch (bootCpu 8 threeStoresProgram)).storeIn ++
      (latch (bootCpu 8 threeStoresProgram)).lsqStores =
        (bootCpu 8 threeStoresProgram).plain.retiredStores :=
  (@stores_in_order .masked _ _ _ _ _ (cpuRun_boot (by decide +kernel))).1

end TomasuloCpu
