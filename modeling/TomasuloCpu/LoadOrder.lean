import TomasuloCpu.Boot
import TomasuloCpu.Bytes
import TomasuloCpu.Path
import TomasuloCpu.Stores
import TomasuloCpu.Window

set_option autoImplicit false

/-!
# Loads and the stores before them

`_rsu_overlap` holds a load back behind the stores that it does not overlap. A
load that finds no store before it in the reorder buffer reads what the retired
stores have left in memory.
-/
namespace TomasuloCpu
open Clocked

section
variable {s : Latched} {addr : Addr} {size : LsSize} {slot : ℤ}

/-- The entry of a store that a load must wait for. -/
def Latched.Conflict (s : Latched) (addr : Addr) (size : LsSize) (slot : ℤ) : Prop :=
  let data : RobPayload := s.rm.robPayload slot
  data.op = .store ∧
    (data.addrReady = false ∨ ¬Apart addr (lsBytes size) data.addr (lsBytes data.size))

instance (s : Latched) (addr : Addr) (size : LsSize) (slot : ℤ) :
    Decidable (s.Conflict addr size slot) := inferInstanceAs (Decidable (_ ∧ (_ ∨ _)))

/-- No store is older than the entry in a slot. -/
def Latched.Foremost (s : Latched) (slot : ℤ) : Prop :=
  ∀ i ∈ s.older slot, (s.rm.robPayload i).op ≠ .store

instance (s : Latched) (slot : ℤ) : Decidable (s.Foremost slot) :=
  inferInstanceAs (Decidable (∀ i ∈ s.older slot, _))

theorem lsSize_le {n : ℕ} (h : lsSize size = some n) : n ≤ 4 := by
  unfold lsSize at h
  split_ifs at h <;> cases h <;> omega

/-- What `_rsu_overlap` calls no overlap is one. -/
theorem rsuOverlap_false {addr' : Addr} {size' : LsSize}
    (h : rsuOverlap addr size addr' size' = some false) :
    ¬Apart addr (lsBytes size) addr' (lsBytes size') := by
  unfold rsuOverlap at h
  split_ifs at h with he hlt
  · cases h
  · obtain ⟨n, hn, hle⟩ := Option.map_eq_some_iff.1 h
    have h4 := lsSize_le hn
    rw [decide_eq_false_iff_not] at hle
    rw [Apart, lsBytes, lsBytes, hn, Option.getD_some]
    bv_omega
  · obtain ⟨n, hn, hle⟩ := Option.map_eq_some_iff.1 h
    have h4 := lsSize_le hn
    rw [decide_eq_false_iff_not] at hle
    have hne : addr.toNat ≠ addr'.toNat := fun h => he (BitVec.eq_of_toNat_eq h)
    rw [Apart, lsBytes, lsBytes, hn, Option.getD_some]
    bv_omega

/-- A load passes the stores before it that it overlaps, and no others. -/
theorem rsuBlocking_false {dest : RobId} {slots : List ℤ}
    (h : rsuBlocking s addr size dest slots = some false) {i : ℤ}
    (hi : i ∈ slots.takeWhile fun i => i ≠ robSlot dest)
    (ho : (s.rm.robPayload i).op = .store) : s.Conflict addr size i := by
  induction slots with
  | nil => cases hi
  | cons j slots ih =>
    have hd : robId j = dest ↔ j = robSlot dest := by
      constructor
      · rintro rfl
        simp
      · rintro rfl
        simp
    by_cases hj : j = robSlot dest
    · simp [hj] at hi
    · simp only [ne_eq, hj, not_false_eq_true, decide_true, List.takeWhile_cons_of_pos,
        List.mem_cons] at hi
      rw [rsuBlocking, if_neg (mt hd.1 hj)] at h
      split_ifs at h with hs hr
      · cases h
      · split at h
        · cases h
        · cases h
        · rename_i hov
          rcases hi with rfl | hi
          · exact ⟨ho, .inr (rsuOverlap_false hov)⟩
          · exact ih h hi
      · rcases hi with rfl | hi
        · exact absurd ho hs
        · exact ih h hi

/-- The load that `_rsu_check_load` pushes waits for nothing only if no store is before it. -/
theorem loadPick_iff {rs : RsId} (hb : s.loadBlocked rs = some false) :
    (∀ i ∈ s.older (robSlot (s.rm.rsPayload rs).dest),
      ¬s.Conflict (rsCalcAddr (s.rm.rsPayload rs)) (s.rm.rsPayload rs).opLs i) ↔
      s.Foremost (robSlot (s.rm.rsPayload rs).dest) := by
  constructor
  · intro h i hi ho
    exact h i hi (rsuBlocking_false hb hi ho)
  · intro h i hi hc
    exact h i hi hc.1

end

def Event.pushed? : Event → Option (ℕ × Addr × LsSize)
  | .pushLoad _ seq addr size => some (seq, addr, size)
  | _ => none

def Plain.Pushed (q : Plain) (seq : ℕ) (addr : Addr) (size : LsSize) : Prop :=
  (seq, addr, size) ∈ q.log.filterMap Event.pushed?

def Plain.LoadValue (q : Plain) (data : MemData) (seq : ℕ) (size : LsSize) (value : Word) : Prop :=
  ∃ addr, q.Pushed seq addr size ∧ memGetSz data addr size = some value

/-- Memory once all retired stores are performed. -/
def Plain.memory (image : MemData) (q : Plain) : MemData := applyStores image q.retiredStores

def RobPayload.isLoad (data : RobPayload) : Prop := data.inst.opcode = Opcode.load

instance (data : RobPayload) : Decidable data.isLoad :=
  inferInstanceAs (Decidable (data.inst.opcode = Opcode.load))

theorem EntryOk.op_of_load {data : RobPayload} (ok : EntryOk data) (h : data.isLoad) :
    data.op = .register := by
  have hh : data.inst.op ≠ InstOp.hcf := fun hh =>
    absurd (h.symm.trans (ok.legal.opcode_of_hcf hh)) (by decide)
  have h : data.inst.opcode = Opcode.load := h
  rw [ok.op, ok.legal.instRobOp_eq, if_neg hh, h]
  rfl

def LoadMsg (data : MemData) (s : Latched) (q : Plain) (msg : CdbMessage) : Prop :=
  (s.entryAt msg.rob).isLoad → s.Foremost (robSlot msg.rob) ∧
    q.LoadValue data msg.seq (s.entryAt msg.rob).size msg.result

structure LoadAccess (s : Latched) (q : Plain) (baseMsg : CdbMessage) (addr : Addr)
    (size : LsSize) : Prop where
  foremost : s.Foremost (robSlot baseMsg.rob)
  pushed : q.Pushed baseMsg.seq addr size
  size_eq : size = (s.entryAt baseMsg.rob).size

/-- The loads in flight have no store before them in the reorder buffer, and none
    that retired can overtake them; their values are read from the final memory of the
    stores before them. -/
structure LoadsOrdered (image : MemData) (s : Latched) (q : Plain) : Prop where
  data : q.data = applyStores image q.performed
  flow : Flow s (fun t => ¬(s.entryAt t.baseMsg.rob).isLoad) (LoadMsg (q.memory image) s q)
    (fun l => LoadAccess s q l.baseMsg l.addr l.size)
    (fun r => LoadAccess s q r.baseMsg r.addr r.size)
  ready : ∀ slot ∈ s.robs, s.rm.robReady slot = true → (s.rm.robPayload slot).isLoad →
    s.Foremost slot ∧ q.LoadValue (q.memory image) (s.rm.robPayload slot).seq
      (s.rm.robPayload slot).size (s.rm.robPayload slot).value
  queue : (s.lsq.map s.rm.lsq.data).Pairwise fun a b => a.live = true → b.op ≠ .store
  mem : ∀ i ∈ memSlots, s.rr (.loadBusy i) = true → s.lsqStores = [] ∧
    ∀ j ∈ q.inFlight, (s.rm.storeReq j).ticksRemaining < (s.rm.loadReq i).ticksRemaining
  retired : ∀ n data, q.retired[n]? = some data → data.isLoad → q.LoadValue
    (applyStores image ((q.retired.take n).filterMap RobPayload.store?)) data.seq data.size
      data.value

variable [WideShift] {s s' : Latched} {q p q' : Plain} {image : MemData} {slot : ℤ}

namespace Step
variable (st : Step s q p s' q')
include st

theorem pushed {seq : ℕ} {addr : Addr} {size : LsSize} (h : q.Pushed seq addr size) :
    q'.Pushed seq addr size := by
  obtain ⟨e, he, hp⟩ := List.mem_filterMap.1 h
  exact List.mem_filterMap.2 ⟨e, st.mem_log.2 (.inl he), hp⟩

variable (ctl : Control s)
include ctl

theorem foremost (hc : s.rm.robs.clear = false) (hs : slot ∈ s.robs)
    (hr : ¬(s.retires = true ∧ slot = s.rm.robs.head)) (h : s.Foremost slot) :
    s'.Foremost slot := by
  intro i hi
  have hi := st.older_sub ctl hc hs hr hi
  rw [(st.robPayload_same ctl (older_subset hi)).op]
  exact h i hi

theorem retired_store (hc : s.rm.robs.clear = false) (hs : slot ∈ s.robs)
    (hr : ¬(s.retires = true ∧ slot = s.rm.robs.head)) (h : s.Foremost slot) :
    s.retired.toList.filterMap RobPayload.store? = [] ∧ s.storesHead = false := by
  have hop : s.retires = true → s.head.op ≠ .store := fun hret =>
    h _ (st.head_mem_older ctl hc hs hret fun he => hr ⟨hret, he⟩)
  constructor
  · unfold Latched.retired
    split_ifs with hret
    · simp [RobPayload.store?, hop hret]
    · rfl
  · rw [Bool.eq_false_iff]
    intro hst
    obtain ⟨hret, ho⟩ := storesHead_iff.1 hst
    exact hop hret ho

theorem memory_eq (hc : s.rm.robs.clear = false) (hs : slot ∈ s.robs)
    (hr : ¬(s.retires = true ∧ slot = s.rm.robs.head)) (h : s.Foremost slot) :
    q'.memory image = q.memory image := by
  simp [Plain.memory, Plain.retiredStores, st.retired, List.filterMap_append,
    (st.retired_store ctl hc hs hr h).1]

end Step

namespace LoadsOrdered
variable (ok : LoadsOrdered image s q) (co : Coherent s) (so : StoresOk s q) (st : Step s q p s' q')
include ok

omit [WideShift] in
/-- A load is due only when the stores that retired before it are in memory. -/
theorem data_eq (so : StoresOk s q) {i : ℕ} (h : s.memReady = some i) :
    q.data = q.memory image := by
  obtain ⟨-, hi, hb, ht⟩ := memReady_spec h
  obtain ⟨hq, hm⟩ := ok.mem i hi hb
  have hnil : q.inFlight = [] := by
    refine List.eq_nil_iff_forall_not_mem.2 fun j hj => ?_
    have hlt := hm j hj
    have hpos := (so.ticks_bounds hj).1
    omega
  rw [ok.data, Plain.memory, ← so.order, hnil, hq]
  simp

include co st

theorem step_flow (hpick : ∀ rs, s.loadPick = some rs →
      s.Foremost (robSlot (s.rm.rsPayload rs).dest)) (so : StoresOk s q)
    (hc : s.rm.robs.clear = false) :
    Flow s' (fun t => ¬(s'.entryAt t.baseMsg.rob).isLoad) (LoadMsg (q'.memory image) s' q')
      (fun l => LoadAccess s' q' l.baseMsg l.addr l.size)
      (fun r => LoadAccess s' q' r.baseMsg r.addr r.size) := by
  have inv := co.conserved
  have ctl := inv.control
  have hfore : ∀ m : CdbMessage, m.key ∈ s.carriers → s.Foremost (robSlot m.rob) →
      s'.Foremost (robSlot m.rob) ∧ q'.memory image = q.memory image := by
    intro m hk hf
    obtain ⟨hs, hr, -⟩ := inv.mem_open hk
    exact ⟨st.foremost ctl hc hs (Latched.not_retired hr) hf,
      st.memory_eq ctl hc hs (Latched.not_retired hr) hf⟩
  have hsame : ∀ m : CdbMessage, m.key ∈ s.carriers →
      (s'.entryAt m.rob).Same (s.entryAt m.rob) := fun m hk =>
    st.robPayload_same ctl (inv.mem_open hk).1
  have haccess : ∀ {k : CdbMessage} {addr size}, k.key ∈ s.carriers →
      LoadAccess s q' k addr size → LoadAccess s' q' k addr size := fun {k _ _} hk h =>
    ⟨(hfore k hk h.foremost).1, h.pushed, h.size_eq.trans (hsame k hk).size.symm⟩
  have hstation : ∀ {rs}, rs ∈ stations → s.rm.rsBusy rs = true →
      EntryOk (s.entryOf rs) ∧
        StationOk rs (s.rm.rsPayload rs) (s.entryOf rs).inst (s.entryOf rs).pc := fun hr hb =>
    ⟨co.entries.entry _ (inv.rs_open hr hb).1, co.entries.station _ hr hb⟩
  have hflow : Flow s (fun t => ¬(s.entryAt t.baseMsg.rob).isLoad)
      (LoadMsg (q.memory image) s q') (fun l => LoadAccess s q' l.baseMsg l.addr l.size)
      (fun r => LoadAccess s q' r.baseMsg r.addr r.size) :=
    ok.flow.mono (fun _ h => h)
      (fun m h hi => ⟨(h hi).1, (h hi).2.imp fun _ h => ⟨st.pushed h.1, h.2⟩⟩)
      (fun l h => ⟨h.foremost, st.pushed h.pushed, h.size_eq⟩)
      (fun r h => ⟨h.foremost, st.pushed h.pushed, h.size_eq⟩)
  refine hflow.advance inv st ?_ (fun a _ _ ht result _ hi => absurd hi ht) ?_ (fun _ h => h)
    (fun _ _ h => ⟨h.foremost, h.pushed, h.size_eq⟩) (fun i hr h msg hm _ => ?_)
    (fun t hk h hi => ?_) (fun m hk h hi => ?_) (fun l hk h => haccess hk h)
    (fun r hk h => haccess hk h)
  · intro a rs hs hi
    obtain ⟨hr, hb⟩ := freed_busy (mem_freed.2 (.inl ⟨a, aluFrees_of_starts hs⟩))
    obtain ⟨he, hst⟩ := hstation hr hb
    have hm := (aluPick_spec (aluPick_of_frees (aluFrees_of_starts hs))).2.2.1
    have hl : instType _ = .reservationStation := rsVec_disjoint hst.kind hm
    exact absurd ((he.legal.instType_load_iff.2 hi).symm.trans hl) (by decide)
  · intro rs hp
    obtain ⟨hr, hb⟩ := freed_busy (mem_freed.2 (.inr (.inl hp)))
    obtain ⟨he, hst⟩ := hstation hr hb
    have hlog : .pushLoad (s.rm.rsPayload rs).dest (s.rm.rsPayload rs).seq
        (rsCalcAddr (s.rm.rsPayload rs)) (s.rm.rsPayload rs).opLs ∈ q'.log :=
      st.mem_log.2 (.inr ⟨rs, hp, st.loadBlocked hp, rfl, rfl, rfl, rfl⟩)
    exact ⟨hpick rs hp, List.mem_filterMap.2 ⟨_, hlog, rfl⟩, hst.opLs.trans he.size.symm⟩
  · obtain ⟨v, hv, rfl⟩ := Option.map_eq_some_iff.1 hm
    refine ⟨h.foremost, (s.rm.loadReq i).addr, ?_, ?_⟩
    · rw [← h.size_eq]
      exact h.pushed
    · rw [← h.size_eq, ← ok.data_eq so hr]
      exact hv
  · rw [RobPayload.isLoad, (hsame _ hk).inst] at hi
    exact h hi
  · rw [RobPayload.isLoad, (hsame m hk).inst] at hi
    obtain ⟨hf, hv⟩ := h hi
    obtain ⟨hf', hmem⟩ := hfore m hk hf
    refine ⟨hf', ?_⟩
    rw [hmem, (hsame m hk).size]
    exact hv

/-- A load that waits keeps the stores after it from retiring. -/
theorem step_queue (hc : s.rm.robs.clear = false) :
    (s'.lsq.map s'.rm.lsq.data).Pairwise fun a b => a.live = true → b.op ≠ .store := by
  have inv := co.conserved
  have ctl := inv.control
  have hlc : s.rm.lsqClear = false := ctl.lsqClear.trans hc
  have hall : (s.lsq.map s.rm.lsq.data ++ s.lsqPush.toList).Pairwise
      fun a b => a.live = true → b.op ≠ .store := by
    refine List.pairwise_append.2 ⟨ok.queue, ?_, fun a ha b hb hlive ho => ?_⟩
    · cases s.lsqPush <;> simp
    · obtain ⟨slot, hs, rfl⟩ := List.mem_map.1 ha
      have hk := flow_carriers.lsq slot hs hlive
      obtain ⟨hm, hr, -⟩ := inv.mem_open hk
      have hf := (ok.flow.lsq slot hs hlive).foremost
      have hn := (st.retired_store ctl hc hm (Latched.not_retired hr) hf).2
      rcases st.lsqPushes_iff.2 (Option.mem_toList.1 hb) with ⟨rs, -, -, rfl⟩ | ⟨hst, -⟩
      · cases ho
      · rw [hn] at hst
        cases hst
  rw [← st.lsqPayloads ctl hlc] at hall
  exact (List.pairwise_append.1 hall).2.1

end LoadsOrdered

theorem Step.storeReq_cases (st : Step s q p s' q') (hc : s.rm.memClear = false) {j : ℕ}
    (hb : s'.rr (.storeBusy j) = true) :
    (j ∈ memSlots ∧ s.rr (.storeBusy j) = true ∧ s'.rm.storeReq j =
      { s.rm.storeReq j with ticksRemaining := (s.rm.storeReq j).ticksRemaining - 1 }) ∨
      ∃ payload, s.issuesStore = some payload := by
  rcases st.raised.1 hb with ⟨hj, hb, -⟩ | ⟨hi, -⟩
  · exact .inl ⟨hj, hb, st.written (r := .storeReq j) (.inl ⟨hc, hj, hb, rfl⟩)⟩
  · exact .inr (Option.isSome_iff_exists.1 hi)

namespace LoadsOrdered
variable (ok : LoadsOrdered image s q) (co : Coherent s) (so : StoresOk s q) (st : Step s q p s' q')
include ok co so st

theorem step_mem (so' : StoresOk s' q') (hc : s.rm.robs.clear = false) {i : ℕ}
    (hi : i ∈ memSlots) (hb : s'.rr (.loadBusy i) = true) : s'.lsqStores = [] ∧
      ∀ j ∈ q'.inFlight, (s'.rm.storeReq j).ticksRemaining < (s'.rm.loadReq i).ticksRemaining := by
  have inv := co.conserved
  have ctl := inv.control
  have hlc : s.rm.lsqClear = false := ctl.lsqClear.trans hc
  have hmc : s.rm.memClear = false := ctl.memClear.trans hc
  have hstays : ∀ k : CdbMessage, k.key ∈ s.carriers → s.Foremost (robSlot k.rob) →
      s.retired.toList.filterMap RobPayload.store? = [] := by
    intro k hk hf
    obtain ⟨hm, hr, -⟩ := inv.mem_open hk
    exact (st.retired_store ctl hc hm (Latched.not_retired hr) hf).1
  -- neither a load in its slot nor one that enters it has a store behind it
  obtain ⟨hq, hret, hticks⟩ : s.lsqStores = [] ∧
      s.retired.toList.filterMap RobPayload.store? = [] ∧ ∀ j ∈ q.inFlight,
        (s.rm.storeReq j).ticksRemaining - 1 < (s'.rm.loadReq i).ticksRemaining := by
    rcases st.loadReq_cases hb with ⟨-, -, hb, hreq⟩ | ⟨payload, hp, hreq⟩
    · obtain ⟨hq, ht⟩ := ok.mem i hi hb
      refine ⟨hq, hstays _ (flow_carriers.mem i hi hb) (ok.flow.mem i hi hb).foremost, ?_⟩
      intro j hj
      have := ht j hj
      rw [hreq]
      change _ < (s.rm.loadReq i).ticksRemaining - 1
      omega
    · obtain ⟨slot, hs, rfl, hl, hpop⟩ := issuesLoad_spec ctl hp
      refine ⟨?_, hstays _ (flow_carriers.lsq slot hs hl) (ok.flow.lsq slot hs hl).foremost, ?_⟩
      · have hqueue := ok.queue
        rw [lsq_pop ctl hpop, List.map_cons, List.pairwise_cons] at hqueue
        rw [Latched.lsqStores, List.filterMap_eq_nil_iff, lsq_pop ctl hpop]
        intro x hx
        have hne : (s.rm.lsq.data x).op ≠ .store := by
          rcases List.mem_cons.1 hx with rfl | hx
          · simp only [LsQueuePayload.live, Bool.and_eq_true, decide_eq_true_eq] at hl
            simp [hl.1]
          · exact hqueue.1 _ (List.mem_map_of_mem hx) hl
        simp [LsQueuePayload.store?, hne]
      · intro j hj
        have hlt := (so.ticks_bounds hj).2
        rw [hreq]
        change _ < memTicks - 1
        omega
  have heq := st.lsqStores_eq ctl hlc
  rw [hq, hret, List.append_nil, List.append_eq_nil_iff, so.pop_store ctl] at heq
  refine ⟨heq.2, fun j hj => ?_⟩
  rcases st.storeReq_cases hmc ((so'.busy j).1 hj).2 with ⟨hm, hbj, hreq⟩ | ⟨payload, hp⟩
  · rw [hreq]
    exact hticks j ((so.busy j).2 ⟨hm, hbj⟩)
  · simp [hp] at heq

omit so in
theorem step_ready (hc : s.rm.robs.clear = false) {slot : ℤ} (hs : slot ∈ s'.robs)
    (hr : s'.rm.robReady slot = true) (hl : (s'.rm.robPayload slot).isLoad) :
    s'.Foremost slot ∧ q'.LoadValue (q'.memory image) (s'.rm.robPayload slot).seq
      (s'.rm.robPayload slot).size (s'.rm.robPayload slot).value := by
  have inv := co.conserved
  have ctl := inv.control
  obtain ⟨hm, hcases⟩ := inv.ready_cases st hc hs hr
  have hsame := st.robPayload_same ctl hm
  have hl' : (s.rm.robPayload slot).isLoad := by
    rw [RobPayload.isLoad, ← hsame.inst]
    exact hl
  have hop := (co.entries.entry _ hm).op_of_load hl'
  have hhead := st.not_popped ctl hc hm hs
  have hvalue : s.Foremost slot ∧ q.LoadValue (q.memory image) (s.rm.robPayload slot).seq
      (s.rm.robPayload slot).size (s'.rm.robPayload slot).value := by
    rcases hcases with ⟨hr, h⟩ | ⟨-, msg, hd, he, h⟩ | ⟨-, rs, hf, rfl, h⟩
    · rw [h]
      exact ok.ready slot hm hr hl'
    · have hmsg := ok.flow.bus msg (mem_busQueue hd)
      have hseq := (inv.delivered_open hd).2.2
      simp only [LoadMsg, Latched.entryAt, he, robSlot_robId] at hmsg hseq
      rw [h, robMsgPayload, if_neg (by simp [hop]), hseq]
      exact hmsg hl'
    · obtain ⟨hr, hb⟩ := storePick_spec (storePick_of_frees hf)
      have hst := co.entries.store_op inv hr (storeReady_busy hb)
      exact absurd (hst.symm.trans hop) (by decide)
  obtain ⟨hf, hv⟩ := hvalue
  refine ⟨st.foremost ctl hc hm hhead hf, ?_⟩
  rw [st.memory_eq ctl hc hm hhead hf, hsame.seq, hsame.size]
  exact hv.imp fun _ h => ⟨st.pushed h.1, h.2⟩

omit so in
theorem step_retired {n : ℕ} {data : RobPayload} (hn : q'.retired[n]? = some data)
    (hl : data.isLoad) : q'.LoadValue (applyStores image
      ((q'.retired.take n).filterMap RobPayload.store?)) data.seq data.size data.value := by
  have hpush : ∀ {mem seq size v}, q.LoadValue mem seq size v → q'.LoadValue mem seq size v :=
    fun h => h.imp fun _ h => ⟨st.pushed h.1, h.2⟩
  have hret := st.retired
  by_cases hlt : n < q.retired.length
  · rw [hret, List.getElem?_append_left hlt] at hn
    rw [hret, List.take_append_of_le_length (Nat.le_of_lt hlt)]
    exact hpush (ok.retired n data hn hl)
  · -- the entry that retires in this tick
    obtain ⟨k, rfl⟩ := Nat.exists_eq_add_of_le (Nat.le_of_not_lt hlt)
    rw [hret, List.getElem?_append_right (Nat.le_add_right _ _), Nat.add_sub_cancel_left] at hn
    unfold Latched.retired at hn
    split_ifs at hn with hr
    · obtain ⟨rfl, rfl⟩ : k = 0 ∧ s.head = data := by
        cases k with
        | zero => exact ⟨rfl, by simpa using hn⟩
        | succ k => simp at hn
      have hcm := Latched.commits_of_retires hr
      have hm := head_mem co.conserved.control hcm
      rw [hret, Nat.add_zero, List.take_left]
      exact hpush (ok.ready _ hm (ready_of_commits hcm) hl).2
    · simp at hn

/-- In a tick that pushes no load past a store, loads stay in order. -/
theorem step (so' : StoresOk s' q') (hpick : ∀ rs, s.loadPick = some rs →
    s.Foremost (robSlot (s.rm.rsPayload rs).dest)) : LoadsOrdered image s' q' := by
  have ctl := co.conserved.control
  have hdata : q'.data = applyStores image q'.performed := by
    rw [st.data, ok.data, st.performed]
    exact (List.foldl_append ..).symm
  have hret := fun n data (hn : q'.retired[n]? = some data) hl => ok.step_retired co st hn hl
  cases hc : s.rm.robs.clear
  · exact
      { data := hdata
        flow := ok.step_flow co st hpick so hc
        ready := fun slot hs hr hl => ok.step_ready co st hc hs hr hl
        queue := ok.step_queue co st hc
        mem := fun i hi hb => ok.step_mem co so st so' hc hi hb
        retired := hret }
  · have hq := st.quiet ctl hc
    have hnone : ∀ k : Key, k ∉ s'.carriers := by simp [hq.carriers]
    have hdead : ∀ slot ∈ s'.lsq, (s'.rm.lsq.data slot).live = false := by
      intro slot hs
      cases ho : (s'.rm.lsq.data slot).op
      · simp [LsQueuePayload.live, hq.cleared slot hs ho]
      · simp [LsQueuePayload.live, ho]
    refine
      { data := hdata
        flow := flow_carriers.mono (fun _ h => absurd h (hnone _)) (fun _ h => absurd h (hnone _))
          (fun _ h => absurd h (hnone _)) (fun _ h => absurd h (hnone _))
        ready := fun slot hs => by simp [hq.robs] at hs
        queue := ?_
        mem := fun i hi hb => by simp [hq.loadBusy i hi] at hb
        retired := hret }
    refine List.pairwise_of_forall_mem_list fun a ha b _ hl => ?_
    obtain ⟨slot, hs, rfl⟩ := List.mem_map.1 ha
    simp [hdead slot hs] at hl

end LoadsOrdered

/-- The tick pushes no load past a store. -/
def PushesForemost (_ : Schedule) (c : Cpu) : Prop :=
  ∀ rs ∈ (latch c).loadPick, (latch c).Foremost (robSlot ((latch c).rm.rsPayload rs).dest)

instance (o : Schedule) (c : Cpu) : Decidable (PushesForemost o c) :=
  inferInstanceAs (Decidable (∀ rs ∈ (latch c).loadPick, _))

section
variable (image : MemData) (garbage : ℤ → ℤ → ℤ) (hist : ℤ)

omit [WideShift] in
theorem loadsOrdered_cpuCreate : LoadsOrdered image (latch (cpuCreate image garbage hist))
    (cpuCreate image garbage hist).plain where
  data := rfl
  flow :=
    { task := fun _ _ hb => by cases hb
      buf := fun _ _ hb => by cases hb
      helper := fun _ _ _ hm => by cases hm
      bus := fun _ hm => by cases hm
      lsq := fun _ hs => by cases hs
      mem := fun _ _ hb => by cases hb }
  ready := fun _ hs => by cases hs
  queue := .nil
  mem := fun _ _ hb => by cases hb
  retired := fun _ _ h => by cases h

theorem loadsOrdered_of_cpuRun {os : List Schedule} {c : Cpu}
    (hr : cpuRun os (cpuCreate image garbage hist) = .ok c)
    (hw : RunAll PushesForemost os (cpuCreate image garbage hist)) :
    LoadsOrdered image (latch c) c.plain := by
  have h : Coherent (latch c) ∧ StoresOk (latch c) c.plain ∧ LoadsOrdered image (latch c) c.plain :=
    hw.induction (I := fun s q => Coherent s ∧ StoresOk s q ∧ LoadsOrdered image s q)
      ⟨coherent_cpuCreate image garbage hist, storesOk_cpuCreate image garbage hist,
        loadsOrdered_cpuCreate image garbage hist⟩
      (fun ⟨co, so, ok⟩ hw st =>
        ⟨co.step st, so.step co.conserved.control st,
          ok.step co so st (so.step co.conserved.control st) fun rs hp => hw rs hp⟩) hr
  exact h.2.2

/-- A load is pushed past no store with an unknown address or common bytes if and only if
    it is pushed past no store at all; and in runs in which no load is, every load returns
    what the stores that retired before it left in memory. -/
theorem loads_in_order {os : List Schedule} {c : Cpu}
    (hr : cpuRun os (cpuCreate image garbage hist) = .ok c) :
    (∀ rs, (latch c).loadPick = some rs → (latch c).loadBlocked rs = some false →
      ((∀ i ∈ (latch c).older (robSlot ((latch c).rm.rsPayload rs).dest),
        ¬(latch c).Conflict (rsCalcAddr ((latch c).rm.rsPayload rs))
          ((latch c).rm.rsPayload rs).opLs i) ↔
        (latch c).Foremost (robSlot ((latch c).rm.rsPayload rs).dest))) ∧
    (RunAll PushesForemost os (cpuCreate image garbage hist) →
      ∀ n data, c.plain.retired[n]? = some data → data.isLoad →
        c.plain.LoadValue (applyStores image
          ((c.plain.retired.take n).filterMap RobPayload.store?)) data.seq data.size data.value) :=
  ⟨fun _ _ hb => loadPick_iff hb,
    fun hw => (loadsOrdered_of_cpuRun image garbage hist hr hw).retired⟩

end

omit [WideShift] in
/-- The load waits for the store and returns what it left. -/
theorem loads_in_order_load : ∃ data,
    (bootCpu 18 storeLoadProgram).plain.retired[2]? = some data ∧
    (bootCpu 18 storeLoadProgram).plain.LoadValue (applyStores (imageOf storeLoadProgram)
      (((bootCpu 18 storeLoadProgram).plain.retired.take 2).filterMap RobPayload.store?))
      data.seq data.size data.value := by
  obtain ⟨data, hd⟩ : ∃ data, (bootCpu 18 storeLoadProgram).plain.retired[2]? = some data :=
    Option.isSome_iff_exists.1 (by decide +kernel)
  have hl : ∀ data ∈ (bootCpu 18 storeLoadProgram).plain.retired[2]?, data.isLoad := by
    decide +kernel
  exact ⟨data, hd, (@loads_in_order .masked (imageOf storeLoadProgram) (fun _ _ => 0) 0
    (bootTicks 18) (bootCpu 18 storeLoadProgram) (cpuRun_boot (by decide +kernel))).2
    (by decide +kernel) 2 data hd (hl data hd)⟩

/-- A load of a byte of the store before it, behind a load that keeps the store waiting. -/
def passProgram : List Word := [0xfff00313, 0x00002283, 0x06602223, 0x06600383, instMagicHcf]

omit [WideShift] in
/-- The byte load is pushed past the store that writes its byte, and returns the old one. -/
theorem load_passes_store :
    (@cpuRun .masked (bootTicks 4) (boot passProgram) = .ok (bootCpu 4 passProgram) ∧
      (latch (bootCpu 4 passProgram)).loadPick = some 8 ∧
      (latch (bootCpu 4 passProgram)).loadBlocked 8 = some false ∧
      2 ∈ (latch (bootCpu 4 passProgram)).older
        (robSlot ((latch (bootCpu 4 passProgram)).rm.rsPayload 8).dest) ∧
      (latch (bootCpu 4 passProgram)).Conflict
        (rsCalcAddr ((latch (bootCpu 4 passProgram)).rm.rsPayload 8))
        ((latch (bootCpu 4 passProgram)).rm.rsPayload 8).opLs 2) ∧
    @cpuRun .masked (bootTicks 12) (boot passProgram) = .ok (bootCpu 12 passProgram) ∧
      ∃ data, (bootCpu 12 passProgram).plain.retired[3]? = some data ∧ data.isLoad ∧
        ¬(bootCpu 12 passProgram).plain.LoadValue (applyStores (imageOf passProgram)
          (((bootCpu 12 passProgram).plain.retired.take 3).filterMap RobPayload.store?))
          data.seq data.size data.value := by
  refine ⟨⟨cpuRun_boot (by decide +kernel), by decide +kernel, by decide +kernel,
    by decide +kernel, by decide +kernel⟩, cpuRun_boot (by decide +kernel), ?_⟩
  obtain ⟨data, hd⟩ : ∃ data, (bootCpu 12 passProgram).plain.retired[3]? = some data :=
    Option.isSome_iff_exists.1 (by decide +kernel)
  have hl : ∀ data ∈ (bootCpu 12 passProgram).plain.retired[3]?, data.isLoad := by
    decide +kernel
  have hv : ∀ data ∈ (bootCpu 12 passProgram).plain.retired[3]?, data.value = 0 ∧
      ∀ x ∈ (bootCpu 12 passProgram).plain.log.filterMap Event.pushed?, x.1 = data.seq →
        memGetSz (applyStores (imageOf passProgram)
          (((bootCpu 12 passProgram).plain.retired.take 3).filterMap RobPayload.store?))
          x.2.1 data.size = some 0xffffffff := by
    decide +kernel
  refine ⟨data, hd, hl data hd, fun ⟨addr, hp, hg⟩ => ?_⟩
  rw [(hv data hd).2 _ hp rfl, (hv data hd).1] at hg
  exact absurd hg (by decide)

end TomasuloCpu
