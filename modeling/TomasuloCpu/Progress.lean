import TomasuloCpu.Library.Within
import TomasuloCpu.Rank

set_option autoImplicit false

/-!
# No tick is lost

A tick that commits nothing moves something on, unless the CPU has come to HCF
or to a word that `inst_decode` does not know.
-/
namespace TomasuloCpu
open Clocked Progress

/-- The CPU waits for an instruction that it cannot dispatch. -/
def Latched.Stuck (s : Latched) (q : Plain) : Prop :=
  s.rm.robs.clear = false ∧ s.robs = [] ∧
    (instDecode (memGetInst q.data s.rm.pc)).op = InstOp.unimp

def StoresOpen (s : Latched) : Prop :=
  ∀ slot ∈ s.robs, (s.rm.robPayload slot).op = .store → s.rm.robReady slot = false →
    0 < (s.rm.robPayload slot).missing

/-- The lock that is held without a signal waits for a store. -/
def LockWaits (s : Latched) (q : Plain) : Prop :=
  s.rr .lockStall = true → q.performed = [] → q.issued ≠ []

structure Live (s : Latched) (q : Plain) : Prop where
  coherent : Coherent s
  loads : LoadsOk s
  stores : StoresOk s q
  lock : LockOk s q
  lockWaits : LockWaits s q
  storesOpen : StoresOpen s

variable [WideShift] {s s' : Latched} {q p q' : Plain}

omit [WideShift] in
theorem missing_pos_of_store {data : RobPayload} (ho : data.op = .store)
    (h : ¬(data.addrReady = true ∧ data.valueReady = true)) : 0 < data.missing := by
  rw [RobPayload.missing, if_pos ho]
  cases ha : data.addrReady <;> cases hv : data.valueReady <;> simp_all

theorem StoresOpen.step (h : StoresOpen s) (co : Coherent s) (st : Step s q p s' q') :
    StoresOpen s' := by
  have inv := co.conserved
  intro slot hs ho hr
  cases hc : s.rm.robs.clear
  case true =>
    rw [(st.quiet inv.control hc).robs] at hs
    cases hs
  rcases (st.mem_robs inv.control hc).1 hs with ⟨hm, hn⟩ | ⟨hd, rfl⟩
  · have hsame := st.robPayload_same inv.control hm
    rw [hsame.op] at ho
    have hready := mt (st.robReady_iff inv.control hc hm hn).2 (by simp [hr])
    simp only [not_or, Bool.not_eq_true] at hready
    have hopen := h slot hm ho hready.1
    rcases st.robPayload_cases inv.control hm with he | ⟨msg, -, -, he⟩ | ⟨rs, hp, rfl, he⟩
    · rwa [he]
    · rwa [he, robMsgPayload_missing]
    · rw [he]
      refine missing_pos_of_store ?_ fun hfull => hready.2.2 ⟨rs, ?_, rfl⟩
      · rw [← hsame.op, he] at ho
        exact ho
      · rw [Latched.storeFrees, hp, Option.filter_some, if_pos (by simp [hfull])]
  · obtain ⟨⟨rs, inst⟩, hd⟩ := Option.isSome_iff_exists.1 hd
    rw [st.robPayload_dispatch hd] at ho ⊢
    refine missing_pos_of_store ho fun hfull => ?_
    rw [dispatchRobPayload_fresh.1] at hfull
    cases hfull.1

theorem LockWaits.step (h : LockWaits s q) (st : Step s q p s' q') : LockWaits s' q' := by
  intro hb hp
  rw [st.issued]
  rw [st.performed, List.append_eq_nil_iff] at hp
  intro hn
  rw [List.append_eq_nil_iff] at hn
  rcases st.raised.1 hb with ⟨hs, -⟩ | hi
  · exact h hs hp.1 hn.1
  · have hslot := st.storeSlot hi
    rw [Latched.issued, if_pos hi] at hn
    rw [Option.toList_eq_nil_iff.1 hn.2] at hslot
    cases hslot

theorem Live.step (live : Live s q) (st : Step s q p s' q') : Live s' q' where
  coherent := live.coherent.step st
  loads := live.loads.step live.coherent.conserved st
  stores := live.stores.step live.coherent.conserved.control st
  lock := live.lock.step st
  lockWaits := live.lockWaits.step st
  storesOpen := live.storesOpen.step live.coherent st

/-- What a tick without a move leaves open. -/
structure Still (s : Latched) (q p : Plain) : Prop where
  dispatch : s.dispatch p = none
  freed : s.freed = []
  storePick : s.storePick = none
  sent : ∀ a < aluCount, s.sent q.data (a + 1) = none
  grants : s.grants = []
  busKeys : s.busKeys = []
  lsqPop : s.lsqPop = none
  loads : ∀ i ∈ memSlots, s.rr (.loadBusy i) = false
  stores : ∀ i ∈ memSlots, s.rr (.storeBusy i) = false
  unlocks : s.unlocks = false

theorem still_of_moves (h : s.moves q p = 0) : Still s q p := by
  simp only [Latched.moves, Nat.add_eq_zero_iff, List.length_eq_zero_iff,
    Option.toList_eq_nil_iff] at h
  obtain ⟨⟨⟨⟨⟨⟨⟨⟨⟨hd, hf⟩, hp⟩, hs⟩, hg⟩, hb⟩, hl⟩, hm⟩, hst⟩, hu⟩ := h
  refine ⟨hd, hf, hp, ?_, hg, hb, hl, ?_, ?_, ?_⟩
  · intro a ha
    obtain rfl | rfl : a = 0 ∨ a = 1 := by
      simp only [aluCount] at ha
      omega
    · exact hs.1
    · exact hs.2
  · simpa [Latched.loadsBusy] using hm
  · simpa [Latched.storesBusy] using hst
  · simpa using hu

omit [WideShift] in
theorem not_full_of_empty {α : Type} {capacity : ℤ} {q : QueueRegs α} (ok : QueueOk capacity q)
    (h1 : 1 < capacity) (h : q.head = q.tail) : queueFull capacity q = false := by
  have hh := ok.head
  rw [queueFull, queueTrunc_of_nonneg (by rw [← h]; omega), decide_eq_false_iff_not, ← h]
  intro he
  by_cases hlt : q.head + 1 < capacity
  · rw [Int.emod_eq_of_lt (by omega) hlt] at he
    omega
  · obtain hc : q.head + 1 = capacity := by omega
    rw [hc, Int.emod_self] at he
    omega

omit [WideShift] in
theorem Live.head_ready (live : Live s q) {rs : RsId} {slot : ℤ} {slots : List ℤ}
    (hr : s.robs = slot :: slots) (hm : rs ∈ stations) (hb : s.rm.rsBusy rs = true)
    (hd : (s.rm.rsPayload rs).dest = robId slot) : s.ready rs = true := by
  have hnd : s.robs.Nodup := live.coherent.conserved.control.robs.queueForeach_nodup
  have hsrc : ∀ src reg, ¬WaitsOn s rs src reg := by
    intro src reg hw
    have ho := hw.order
    rw [hd, robSlot_robId, hr] at ho
    rw [hr, List.nodup_cons] at hnd
    rcases List.sublist_cons_iff.1 ho with h | ⟨l, hl, h⟩
    · exact hnd.1 (h.subset (by simp))
    · cases hl
      exact hnd.1 (h.subset (by simp))
  have h1 : (s.rm.rsPayload rs).src1 = 0 := by
    by_contra h
    exact hsrc _ _ (live.coherent.linked.src1 rs hm hb h)
  have h2 : (s.rm.rsPayload rs).src2 = 0 := by
    by_contra h
    exact hsrc _ _ (live.coherent.linked.src2 rs hm hb h)
  simp [Latched.ready, hb, h1, h2]

namespace Still
variable (still : Still s q p) (live : Live s q)
include still live

theorem lsq_empty (hc : s.rm.robs.clear = false) : s.rm.lsq.head = s.rm.lsq.tail := by
  rcases lsqPop_eq_none_iff.1 still.lsqPop with h | h | h
  · have := live.coherent.conserved.control.lsqClear
    simp [h, hc] at this
  · have hs : s.rm.lockSignal = false := by
      have hu := still.unlocks
      simpa [Latched.unlocks, h] using hu
    have hp : q.performed = [] := by
      by_contra hn
      have := live.lock.signal.2 hn
      simp [hs] at this
    obtain ⟨i, hi⟩ := List.exists_mem_of_ne_nil _ (live.lockWaits h hp)
    have hF : i ∈ q.inFlight := by rwa [Plain.inFlight, hp]
    obtain ⟨hm, hb⟩ := (live.stores.busy i).1 hF
    have := still.stores i hm
    simp [hb] at this
  · simpa [queueEmpty] using h

theorem lsq_not_full (hc : s.rm.robs.clear = false) : lsQueueFull s = false :=
  not_full_of_empty live.coherent.conserved.control.lsq (by decide) (still.lsq_empty live hc)

theorem bhBusy (st : Step s q p s' q') (hb : s.rm.busClear = 0) {h : ℕ} (hh : h < helperCount) :
    s.rr (.bhBusy h (s.rm.current h)) = false ∧
      s.rr (.bhBusy h (bhOther (s.rm.current h))) = false := by
  have inv := live.coherent.conserved
  have hreq : ∀ i < helperCount, s.rm.req i = false := by
    intro i hi
    by_contra hr
    have hg : ∃ j < helperCount, s.gnt = j + 1 := by
      rw [st.computed.gnt, busArb, if_neg (by simp [hb])]
      cases hf : (List.range helperCount).find? fun i => s.rm.req i with
      | none =>
        have := List.find?_eq_none.1 hf i (List.mem_range.2 hi)
        exact absurd this (by simpa using hr)
      | some j => exact ⟨j, List.mem_range.1 (List.mem_of_find?_eq_some hf), rfl⟩
    obtain ⟨j, hj, hg⟩ := hg
    have hmsg := helperQueue_of_granted (inv.helper j hj) st.computed hg
    have hnil : s.granted j = [] := by
      have hgr := still.grants
      simp only [Latched.grants, List.append_eq_nil_iff] at hgr
      simp only [helperCount] at hj
      obtain rfl | rfl | rfl : j = 0 ∨ j = 1 ∨ j = 2 := by omega
      · exact hgr.1.1
      · exact hgr.1.2
      · exact hgr.2
    rw [hnil] at hmsg
    cases hmsg
  have ok := inv.helper h hh
  have hcur : s.rr (.bhBusy h (s.rm.current h)) = false := by rw [← ok.req, hreq h hh]
  refine ⟨hcur, ?_⟩
  by_contra hn
  have := ok.other (by simpa using hn)
  simp [hcur] at this

theorem bhBusy_all (st : Step s q p s' q') (hb : s.rm.busClear = 0) {h : ℕ}
    (hh : h < helperCount) {b : ℤ} (hm : b = 0 ∨ b = 1) : s.rr (.bhBusy h b) = false := by
  obtain ⟨h₁, h₂⟩ := still.bhBusy live st hb hh
  have ok := live.coherent.conserved.helper h hh
  rcases ok.current with hc | hc <;> rw [hc] at h₁ h₂ <;> rcases hm with rfl | rfl <;>
    first | exact h₁ | exact h₂

theorem acquired (st : Step s q p s' q') (hb : s.rm.busClear = 0) {h : ℕ}
    (hh : h < helperCount) : (s.acquired h).isSome = true := by
  obtain ⟨h₁, h₂⟩ := still.bhBusy live st hb hh
  rw [acquired_eq (live.coherent.conserved.helper h hh).current hb, h₂]
  split <;> simp

/-- The ALUs are idle. -/
theorem aluKeys (st : Step s q p s' q') (hb : s.rm.busClear = 0) {a : ℕ} (ha : a < aluCount) :
    s.aluKeys a = [] := by
  have hn : s.aluMsg a = none := by
    have hs := still.sent a ha
    rwa [Latched.sent, if_pos (still.acquired live st hb
      (by simp only [aluCount, helperCount] at *; omega))] at hs
  have hcl : bhShouldClear s = false := by simp [bhShouldClear, hb]
  have hbusy : s.rr (.aluBusy a) = false := by
    by_contra h
    have := st.aluMsg_isSome ha hcl (by simpa using h)
    simp [hn] at this
  have hbuf : (s.rm.resultBuf a).busy = false := by
    by_contra h
    rw [Bool.not_eq_false] at h
    simp [Latched.aluMsg, hcl, h] at hn
  rw [Latched.aluKeys, hbusy, hbuf]
  rfl

/-- Every result that is still to come waits in a reservation station. -/
theorem carriers (st : Step s q p s' q') (hc : s.rm.robs.clear = false)
    (hb : s.rm.busClear = 0) : s.carriers = s.rsKeys := by
  have hh : ∀ h < helperCount, s.helperKeys h = [] := by
    intro h hh
    obtain ⟨h₁, h₂⟩ := still.bhBusy live st hb hh
    simp [Latched.helperKeys, Latched.helperQueue, h₁, h₂]
  have hl : s.lsqKeys = [] := by
    have hnil : s.lsq = [] :=
      live.coherent.conserved.control.lsq.queueForeach_eq_nil_iff.2 (still.lsq_empty live hc)
    simp [Latched.lsqKeys, hnil]
  have hm : s.memKeys = [] := by
    rw [Latched.memKeys, List.filter_eq_nil_iff.2 fun i hi => by simp [still.loads i hi]]
    rfl
  simp [Latched.carriers, still.aluKeys live st hb (a := 0) (by decide),
    still.aluKeys live st hb (a := 1) (by decide), hh 0 (by decide), hh 1 (by decide),
    hh 2 (by decide), still.busKeys, hl, hm]

/-- The stall of an ALU needs two full buffers. -/
theorem not_stalls (st : Step s q p s' q') (hb : s.rm.busClear = 0) {h : ℕ}
    (hh : h < helperCount) : bhShouldStall s h = false := by
  simp [bhShouldStall, still.bhBusy_all live st hb hh bhOther_mem]

/-- No station holds the head: one of the three scans would serve it or another. -/
theorem no_station (st : Step s q p s' q') (hc : s.rm.robs.clear = false)
    (hb : s.rm.busClear = 0) {rs : RsId} {slot : ℤ} {slots : List ℤ}
    (hr : s.robs = slot :: slots) (hm : rs ∈ stations) (hbusy : s.rm.rsBusy rs = true)
    (hd : (s.rm.rsPayload rs).dest = robId slot) : False := by
  have inv := live.coherent.conserved
  have hready := live.head_ready hr hm hbusy hd
  have hclear : s.rm.rsClear = false := inv.control.rsClear.trans hc
  have hfull := still.lsq_not_full live hc
  have hfreed := still.freed
  simp only [Latched.freed, List.append_eq_nil_iff, Option.toList_eq_nil_iff] at hfreed
  obtain ⟨⟨⟨halu, -⟩, hload⟩, -⟩ := hfreed
  simp only [stations, List.mem_append] at hm
  rcases hm with (hm | hm) | hm
  · have hlen : 0 < (aluStations.filter s.ready).length :=
      List.length_pos_of_mem (List.mem_filter.2 ⟨hm, hready⟩)
    simp only [Latched.aluFrees, Latched.aluPick, hclear,
      still.not_stalls live st hb (h := aluHelper 0) (by decide)] at halu
    simp [aluCount, List.getElem?_eq_getElem hlen] at halu
  · have hblocked : s.loadBlocked rs = some false := by
      rw [Latched.loadBlocked, hr, rsuBlocking, hd, if_pos rfl]
    simp only [Latched.loadPick, hclear, hfull, Bool.or_self, Bool.false_eq_true,
      ↓reduceIte] at hload
    have := List.find?_eq_none.1 hload rs hm
    simp [hready, hblocked] at this
  · have hopen := live.storesOpen (robSlot (s.rm.rsPayload rs).dest)
      (inv.rs_open (by simp [stations, hm]) hbusy).1
      (live.coherent.entries.store_op inv hm hbusy)
      (inv.rs_open (by simp [stations, hm]) hbusy).2.1
    have hpick := still.storePick
    simp only [Latched.storePick, hclear, hfull, Bool.or_self, Bool.false_eq_true,
      ↓reduceIte] at hpick
    have hn := List.find?_eq_none.1 hpick rs hm
    simp only [Latched.ready, Bool.and_eq_true, decide_eq_true_eq] at hready
    simp only [Latched.storeReady, hbusy, hready.1.2, hready.2, decide_true, Bool.and_true,
      Bool.true_and, Bool.or_eq_true, Bool.not_eq_true', not_or, Bool.not_eq_false] at hn
    have ho := live.coherent.entries.store_op inv hm hbusy
    simp only [Latched.entryOf] at ho
    rw [RobPayload.missing, if_pos ho, if_pos hn.1, if_pos hn.2] at hopen
    omega

/-- A tick without a commit and without a move waits for HCF or is stuck. -/
theorem stuck (st : Step s q p s' q') (hc : s.rm.robs.clear = false) (hb : s.rm.busClear = 0)
    (hr : s.retires = false) : (s.commits = true ∧ s.head.op = .hcf) ∨ s.Stuck q := by
  have inv := live.coherent.conserved
  have ok := inv.control.robs
  have hcar := still.carriers live st hc hb
  cases hrobs : s.robs with
  | nil =>
    refine .inr ⟨hc, hrobs, ?_⟩
    have hnil : s.rsKeys = [] := by
      have hp := inv.perm
      rw [hcar, Latched.openKeys, hrobs] at hp
      simpa using hp
    have hfree : ∀ rs ∈ stations, s.rm.rsBusy rs = false := by
      intro rs hm
      rw [Latched.rsKeys, List.map_eq_nil_iff, List.filter_eq_nil_iff] at hnil
      simpa using hnil rs hm
    have hdata : p.data = q.data := by
      rcases st.fetched with h | h
      · exact h
      · have hnone : s.performs = [] := by
          rw [Latched.performs]
          split
          · rfl
          · refine List.filter_eq_nil_iff.2 fun i hi => ?_
            simp [memStoreDone, still.stores i hi]
        rw [h, st.data, hnone]
        rfl
    have hempty := ok.queueForeach_eq_nil_iff.1 hrobs
    have hfull : robUnitFull s = false := not_full_of_empty ok (by decide) hempty
    have hd := still.dispatch
    simp only [Latched.dispatch, inv.control.forcePc.trans hc, hfull, Bool.or_self,
      Bool.false_eq_true, ↓reduceIte] at hd
    split at hd
    · rwa [← hdata]
    · rw [Option.map_eq_none_iff, rsUnitAcquire, List.find?_eq_none] at hd
      have hne : rsVec (instType (instDecode (memGetInst p.data s.rm.pc))) ≠ [] := by
        cases instType (instDecode (memGetInst p.data s.rm.pc)) <;> decide
      obtain ⟨rs, hm⟩ := List.exists_mem_of_ne_nil _ hne
      have := hd rs hm
      simp [hfree rs (rsVec_subset hm)] at this
  | cons slot slots =>
    have hne : s.rm.robs.head ≠ s.rm.robs.tail := fun h => by
      have := ok.queueForeach_eq_nil_iff.2 h
      rw [Latched.robs, this] at hrobs
      cases hrobs
    have hhead : slot = s.rm.robs.head := by
      have := ok.head?_queueForeach hne
      rw [Latched.robs] at hrobs
      rw [hrobs] at this
      exact Option.some.inj this
    subst hhead
    cases hready : s.rm.robReady s.rm.robs.head with
    | true =>
      have hcom : s.commits = true := by simp [Latched.commits, hc, queueEmpty, hne, hready]
      refine .inl ⟨hcom, ?_⟩
      have hfull := still.lsq_not_full live hc
      cases ho : s.head.op <;> simp [Latched.retires, hcom, ho, hfull] at hr ⊢
    | false =>
      have hm : s.robKey s.rm.robs.head ∈ s.openKeys := by
        refine List.mem_map_of_mem (List.mem_filter.2 ⟨?_, by simp [hready]⟩)
        rw [hrobs]
        exact List.mem_cons_self
      have hk := inv.perm.mem_iff.2 hm
      rw [hcar, Latched.rsKeys] at hk
      obtain ⟨rs, hrs, hkey⟩ := List.mem_map.1 hk
      obtain ⟨hs, hbusy⟩ := List.mem_filter.1 hrs
      exact (still.no_station live st hc hb hrobs hs hbusy (congrArg Prod.fst hkey)).elim

end Still

end TomasuloCpu
