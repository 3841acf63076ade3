import Mathlib.Algebra.Order.BigOperators.Group.List
import Mathlib.Algebra.Order.Ring.Nat
import TomasuloCpu.MemorySlots
import TomasuloCpu.Operands
import TomasuloCpu.Registers
import TomasuloCpu.StoreLock

set_option autoImplicit false

/-!
# What is left to do before the next commit

A rank over the places that a result goes through on its way to the reorder
buffer. Between two commits every tick moves something on, and the rank falls.
-/
namespace TomasuloCpu
open Clocked

def RobPayload.missing (data : RobPayload) : ℕ :=
  if data.op = .store then
    (if data.addrReady then 0 else 1) + if data.valueReady then 0 else 1
  else 0

namespace Latched
variable (s : Latched)

def missing : ℕ := (s.robs.map fun slot => (s.rm.robPayload slot).missing).sum

def loadRank (i : ℕ) : ℕ :=
  if s.rr (.loadBusy i) then (s.rm.loadReq i).ticksRemaining.toNat + 2 else 0

def storeRank (i : ℕ) : ℕ :=
  if s.rr (.storeBusy i) then (s.rm.storeReq i).ticksRemaining.toNat else 0

def lockRank : ℕ := if s.rr .lockStall then 1 else 0

/-- A result weighs less in every place that it comes to, and a free entry of the
    reorder buffer weighs more than what its dispatch adds. -/
def rank : ℕ :=
  10 * (robCapacity.toNat - s.robs.length) + s.missing + 7 * s.rsKeys.length + 6 * s.lsq.length +
    (s.loadRank 0 + s.loadRank 1 + s.loadRank 2) +
    3 * ((s.aluKeys 0).length + (s.aluKeys 1).length) +
    2 * ((s.helperKeys 0).length + (s.helperKeys 1).length + (s.helperKeys 2).length) +
    s.busKeys.length + (s.storeRank 0 + s.storeRank 1 + s.storeRank 2) + s.lockRank

def grants : List CdbMessage := s.granted 0 ++ s.granted 1 ++ s.granted 2

def loadsBusy : ℕ := (memSlots.filter fun i => s.rr (.loadBusy i)).length

def storesBusy : ℕ := (memSlots.filter fun i => s.rr (.storeBusy i)).length

def unlocks : Bool := s.rr .lockStall && s.rm.lockSignal

def moves [WideShift] (q p : Plain) : ℕ :=
  (s.dispatch p).toList.length + s.freed.length + s.storePick.toList.length +
    ((s.sent q.data 1).toList.length + (s.sent q.data 2).toList.length) + s.grants.length +
    s.busKeys.length + s.lsqPop.toList.length + s.loadsBusy + s.storesBusy +
    if s.unlocks then 1 else 0

end Latched

theorem sum_slots {o : Option ℕ} (h : ∀ i ∈ o, i ∈ memSlots) (k : ℕ) :
    (if o = some 0 then k else 0) + (if o = some 1 then k else 0) +
      (if o = some 2 then k else 0) = k * o.toList.length := by
  cases o with
  | none => simp
  | some i =>
    have hi := h i rfl
    simp only [memSlots, List.mem_cons, List.not_mem_nil, or_false] at hi
    rcases hi with rfl | rfl | rfl <;> simp

variable [WideShift] {s s' : Latched} {q p q' : Plain}

omit [WideShift] in
theorem robMsgPayload_missing (data : RobPayload) (msg : CdbMessage) :
    (robMsgPayload data msg).missing = data.missing := by
  unfold robMsgPayload
  split <;> rfl

omit [WideShift] in
theorem rsStorePayload_missing {data : RsPayload} {old : RobPayload} (ho : old.op = .store)
    (h : (old.addrReady = false ∧ data.src1 = 0) ∨ (old.valueReady = false ∧ data.src2 = 0)) :
    (rsStorePayload data old).missing < old.missing := by
  obtain ⟨-, ha, -, hv⟩ := rsStorePayload_fields data old
  have hop : (rsStorePayload data old).op = .store :=
    ((RobPayload.same_of_fixed (rsStorePayload_fixed data old)).op).trans ho
  rw [RobPayload.missing, RobPayload.missing, if_pos hop, if_pos ho, ha, hv]
  generalize old.addrReady = addrReady at h
  generalize old.valueReady = valueReady at h
  cases addrReady <;> cases valueReady <;> by_cases h1 : data.src1 = 0 <;>
    by_cases h2 : data.src2 = 0 <;> simp_all

omit [WideShift] in
theorem storeEntry_missing (inv : Conserved s) (ent : Entries s) {rs : RsId}
    (h : s.storePick = some rs) : (s.storeEntry rs).missing <
      (s.rm.robPayload (robSlot (s.rm.rsPayload rs).dest)).missing := by
  obtain ⟨hm, hready⟩ := storePick_spec h
  have hop := ent.store_op inv hm (storeReady_busy hready)
  refine rsStorePayload_missing hop ?_
  simp only [Latched.storeReady, Bool.and_eq_true, Bool.or_eq_true, Bool.not_eq_true',
    decide_eq_true_eq] at hready
  exact hready.2

omit [WideShift] in
theorem issues_length (s : Latched) : s.issuesLoad.toList.length + s.issuesStore.toList.length ≤
    s.lsqPop.toList.length := by
  rw [Latched.issuesLoad, Latched.issuesStore, Latched.lsqIssue]
  cases s.lsqPop with
  | none => simp
  | some slot =>
    cases hop : (s.rm.lsq.data slot).op <;> cases hcl : (s.rm.lsq.data slot).cleared <;>
      simp [Option.filter_some, hop, hcl]

namespace Step
variable (st : Step s q p s' q')
include st

theorem robs_length (ctl : Control s) (hc : s.rm.robs.clear = false)
    (hr : s.retires = false) : s'.robs.length = s.robs.length + (s.dispatch p).toList.length := by
  rw [st.robs_eq hc ctl.robs, hr, List.length_append]
  cases s.dispatch p <;> simp

/-- The entries of stores wait for less by what `_rsu_check_store` puts in. -/
theorem missing (inv : Conserved s) (ent : Entries s) (hc : s.rm.robs.clear = false)
    (hr : s.retires = false) : s'.missing + s.storePick.toList.length ≤
      s.missing + 2 * (s.dispatch p).toList.length := by
  have hle : ∀ slot ∈ s.robs,
      (s'.rm.robPayload slot).missing ≤ (s.rm.robPayload slot).missing := by
    intro slot hs
    rcases st.robPayload_cases inv.control hs with he | ⟨msg, -, -, he⟩ | ⟨rs, hp, rfl, he⟩
    · rw [he]
    · rw [he, robMsgPayload_missing]
    · rw [he]
      exact Nat.le_of_lt (storeEntry_missing inv ent hp)
  have hold : ((s.robs.map fun slot => (s'.rm.robPayload slot).missing).sum) +
      s.storePick.toList.length ≤ s.missing := by
    cases hp : s.storePick with
    | none => exact List.sum_le_sum hle
    | some rs =>
      refine List.sum_lt_sum _ _ hle ⟨_, storePick_slot inv hp, ?_⟩
      have hw : s'.rm.robPayload (robSlot (s.rm.rsPayload rs).dest) = s.storeEntry rs :=
        st.written (r := .robPayload _) (.inr (.inl ⟨rs, hp, rfl, rfl⟩))
      rw [hw]
      exact storeEntry_missing inv ent hp
  have hnew : (s'.rm.robPayload s.rm.robs.tail).missing ≤ 2 := by
    unfold RobPayload.missing
    split_ifs <;> omega
  rw [Latched.missing, st.robs_eq hc inv.control.robs, hr]
  cases s.dispatch p with
  | none => simpa using hold
  | some d =>
    simp only [Bool.false_eq_true, ↓reduceIte, Option.isSome_some, List.map_append,
      List.map_cons, List.map_nil, List.sum_append, List.sum_cons, List.sum_nil,
      Option.toList_some, List.length_cons, List.length_nil]
    omega

theorem rsKeys_length (ctl : Control s) (hc : s.rm.robs.clear = false) :
    s'.rsKeys.length + ((s.aluFrees 0).toList.length + (s.aluFrees 1).toList.length +
      s.loadPick.toList.length + s.storeFrees.toList.length) =
      s.rsKeys.length + (s.dispatch p).toList.length := by
  have h := (st.rsKeys (ctl.rsClear.trans hc)).length_eq
  simpa [Latched.freed, Latched.dispatchKeys, Nat.add_assoc] using h

theorem lsq_length (ctl : Control s) (hc : s.rm.robs.clear = false) (hr : s.retires = false) :
    s.lsqPop.toList.length + s'.lsq.length = s.lsq.length + s.loadPick.toList.length := by
  have h := congrArg List.length (st.lsqPayloads ctl (ctl.lsqClear.trans hc))
  have hs : s.storesHead = false := by
    rw [← Bool.not_eq_true, storesHead_iff, hr]
    simp
  have hp : s.lsqPush.toList.length = s.loadPick.toList.length := by
    rw [Latched.lsqPush, hs]
    cases s.loadPick <;> rfl
  simpa [hp] using h

theorem aluKeys_length {a : ℕ} (ha : a < aluCount) (hb : s.rm.busClear = 0) (ok : AluOk s a) :
    (s'.aluKeys a).length + (s.sent q.data (a + 1)).toList.length =
      (s.aluKeys a).length + (s.aluFrees a).toList.length := by
  have hs : bhShouldClear s = false := by simp [bhShouldClear, hb]
  simpa using (st.aluKeys ha hs ok).2.length_eq

theorem helperKeys_length {h : ℕ} (ok : HelperOk s h) (hh : h < helperCount)
    (hb : s.rm.busClear = 0) : (s.granted h).length + (s'.helperKeys h).length =
      (s.helperKeys h).length + (s.sent q.data h).toList.length := by
  simpa using congrArg List.length (st.helperKeys ok hh hb)

theorem busKeys_length (ok : ∀ h < helperCount, HelperOk s h) :
    s'.busKeys.length = s.grants.length := by
  rw [Latched.busKeys, st.busQueue ok, List.length_map, Latched.grants]

theorem sent_length : (s.sent q.data 0).toList.length = (s.memSends q.data).toList.length := by
  rw [st.sent_mem]
  cases h : s.memSends q.data with
  | none => rfl
  | some i =>
    obtain ⟨msg, hm⟩ := Option.isSome_iff_exists.1 (memSends_spec h).2.2
    simp [hm]

theorem loadRank_slot (inv : Conserved s) (ok : LoadsOk s) (hc : s.rm.memClear = false) {i : ℕ}
    (hi : i ∈ memSlots) :
    s'.loadRank i + (if s.rr (.loadBusy i) then 1 else 0) +
      (if s.memSends q.data = some i then 2 else 0) ≤
      s.loadRank i +
        if (if s.issuesLoad.isSome then s.loadSlot else none) = some i then 4 else 0 := by
  have hslot : (if s.issuesLoad.isSome then s.loadSlot else none) = some i ↔
      s.issuesLoad.isSome ∧ s.loadSlot = some i := by
    cases s.issuesLoad <;> simp
  simp only [hslot]
  cases hb : s.rr (.loadBusy i)
  · have hn : s.memSends q.data ≠ some i := fun h => by
      have := (memReady_spec (memSends_spec h).1).2.2.1
      simp [hb] at this
    cases hb' : s'.rr (.loadBusy i)
    · simp [Latched.loadRank, hb', hn]
    · rcases ok.loadReq_step inv st hb' with ⟨-, h, -⟩ | ⟨hs, ht⟩
      · simp [hb] at h
      · have hl : s.issuesLoad.isSome = true := by
          rcases st.raised.1 hb' with ⟨-, -, h, -⟩ | h
          · simp [hb] at h
          · exact h.1
        simp [Latched.loadRank, hb, hb', hn, hs, hl, ht]
  · have hs : ¬(s.issuesLoad.isSome ∧ s.loadSlot = some i) := fun h => by
      have := (loadSlot_spec h.2).2
      simp [hb] at this
    rcases ok.due i hi hb with ht | ht
    · have hsend := ok.memSends inv st ((ok.memReady_iff hc).2 ⟨hi, hb, ht⟩)
      have hb' : s'.rr (.loadBusy i) = false := by
        rw [st.not_raised]
        rintro (⟨-, -, -, h⟩ | h)
        · exact h hsend
        · exact hs h
      simp [Latched.loadRank, hb, hb', ht, hsend]
    · have hn : s.memSends q.data ≠ some i := fun h => by
        have := ((ok.memReady_iff hc).1 (memSends_spec h).1).2.2
        omega
      obtain ⟨hb', hreq⟩ := ok.loadReq_waits st hc hi hb ht
      simp [Latched.loadRank, hb, hb', ht, hreq, hn]

theorem storeRank_slot (so : StoresOk s q) (hc : s.rm.memClear = false) {i : ℕ}
    (hi : i ∈ memSlots) :
    s'.storeRank i + (if s.rr (.storeBusy i) then 1 else 0) ≤
      s.storeRank i + if s.issued = some i then 2 else 0 := by
  have hslot : s.issued = some i ↔ s.issuesStore.isSome ∧ s.storeSlot = some i := by
    rw [Latched.issued]
    cases s.issuesStore <;> simp
  simp only [hslot]
  cases hb : s.rr (.storeBusy i)
  · cases hb' : s'.rr (.storeBusy i)
    · simp [Latched.storeRank, hb']
    · rcases st.raised.1 hb' with ⟨-, h, -⟩ | ⟨hl, hs⟩
      · simp [hb] at h
      · obtain ⟨payload, hp⟩ := Option.isSome_iff_exists.1 hl
        have hreq : s'.rm.storeReq i = storeRequest payload :=
          st.written (r := .storeReq i) (.inr ⟨payload, hp, hs, rfl⟩)
        simp [Latched.storeRank, hb, hb', hl, hs, hreq, storeRequest, memTicks]
  · have hs : ¬(s.issuesStore.isSome ∧ s.storeSlot = some i) := fun h => by
      have := (storeSlot_spec h.2).2
      simp [hb] at this
    have ht := so.ticks_bounds ((so.busy i).2 ⟨hi, hb⟩)
    have hreq : s'.rm.storeReq i =
        { s.rm.storeReq i with ticksRemaining := (s.rm.storeReq i).ticksRemaining - 1 } :=
      st.written (r := .storeReq i) (.inl ⟨hc, hi, hb, rfl⟩)
    cases hb' : s'.rr (.storeBusy i) <;> simp [Latched.storeRank, hb, hb', hs, hreq] <;> omega

theorem lockRank_le : s'.lockRank ≤ s.issuesStore.toList.length +
    if s.rr .lockStall = true ∧ s.rm.lockSignal = false then 1 else 0 := by
  unfold Latched.lockRank
  cases hb : s'.rr .lockStall
  · simp
  · rcases st.raised.1 hb with h | h
    · simp [h]
    · cases hs : s.issuesStore
      · simp [hs] at h
      · simp

theorem loadRank_le (inv : Conserved s) (ok : LoadsOk s) (hc : s.rm.memClear = false) :
    s'.loadRank 0 + s'.loadRank 1 + s'.loadRank 2 + s.loadsBusy +
      2 * (s.sent q.data 0).toList.length ≤
      s.loadRank 0 + s.loadRank 1 + s.loadRank 2 + 4 * s.issuesLoad.toList.length := by
  have h0 := st.loadRank_slot inv ok hc (i := 0) (by decide)
  have h1 := st.loadRank_slot inv ok hc (i := 1) (by decide)
  have h2 := st.loadRank_slot inv ok hc (i := 2) (by decide)
  have hsend := sum_slots (o := s.memSends q.data) (fun i hi =>
    (memReady_spec (memSends_spec hi).1).2.1) 2
  have hissue := sum_slots (o := if s.issuesLoad.isSome then s.loadSlot else none) (fun i hi => by
    split_ifs at hi
    · exact (loadSlot_spec hi).1
    · cases hi) 4
  have hlen : (if s.issuesLoad.isSome then s.loadSlot else none).toList.length ≤
      s.issuesLoad.toList.length := by
    cases s.issuesLoad <;> cases s.loadSlot <;> simp
  have hbusy : s.loadsBusy = (if s.rr (.loadBusy 0) then 1 else 0) +
      (if s.rr (.loadBusy 1) then 1 else 0) + if s.rr (.loadBusy 2) then 1 else 0 := by
    simp only [Latched.loadsBusy, memSlots, List.filter_cons, List.filter_nil]
    split_ifs <;> rfl
  rw [st.sent_length]
  omega

theorem storeRank_le (so : StoresOk s q) (hc : s.rm.memClear = false) :
    s'.storeRank 0 + s'.storeRank 1 + s'.storeRank 2 + s.storesBusy ≤
      s.storeRank 0 + s.storeRank 1 + s.storeRank 2 + 2 * s.issuesStore.toList.length := by
  have h0 := st.storeRank_slot so hc (i := 0) (by decide)
  have h1 := st.storeRank_slot so hc (i := 1) (by decide)
  have h2 := st.storeRank_slot so hc (i := 2) (by decide)
  have hissue := sum_slots (o := s.issued) (fun i hi => by
    rw [Latched.issued] at hi
    split_ifs at hi
    · exact (storeSlot_spec hi).1
    · cases hi) 2
  have hlen : s.issued.toList.length ≤ s.issuesStore.toList.length := by
    rw [Latched.issued]
    cases s.issuesStore <;> cases s.storeSlot <;> simp
  have hbusy : s.storesBusy = (if s.rr (.storeBusy 0) then 1 else 0) +
      (if s.rr (.storeBusy 1) then 1 else 0) + if s.rr (.storeBusy 2) then 1 else 0 := by
    simp only [Latched.storesBusy, memSlots, List.filter_cons, List.filter_nil]
    split_ifs <;> rfl
  omega

/-- Every move of a tick lowers the rank. -/
theorem rank_le (co : Coherent s) (lo : LoadsOk s) (so : StoresOk s q)
    (hc : s.rm.robs.clear = false) (hb : s.rm.busClear = 0) (hr : s.retires = false) :
    s'.rank + s.moves q p ≤ s.rank := by
  have inv := co.conserved
  have hm := inv.control.memClear.trans hc
  have hrobs := st.robs_length inv.control hc hr
  have hfull := Ring.length_lt (st.control inv.control).robs.head (st.control inv.control).robs.tail
  have hlen : s'.robs.length < robCapacity.toNat := by
    have h := congrArg List.length (st.control inv.control).robs.queueForeach_eq
    rw [Ring.length_slots] at h
    rw [Latched.robs, h]
    omega
  have hmissing := st.missing inv co.entries hc hr
  have hrs := st.rsKeys_length inv.control hc
  have hlsq := st.lsq_length inv.control hc hr
  have hloads := st.loadRank_le inv lo hm
  have halu0 := st.aluKeys_length (a := 0) (by decide) hb (inv.alu 0 (by decide))
  have halu1 := st.aluKeys_length (a := 1) (by decide) hb (inv.alu 1 (by decide))
  have hh0 := st.helperKeys_length (inv.helper 0 (by decide)) (by decide) hb
  have hh1 := st.helperKeys_length (inv.helper 1 (by decide)) (by decide) hb
  have hh2 := st.helperKeys_length (inv.helper 2 (by decide)) (by decide) hb
  have hbus := st.busKeys_length inv.helper
  have hstores := st.storeRank_le so hm
  have hlock := st.lockRank_le
  have hpop := issues_length s
  have hunlock : s.lockRank = (if s.rr .lockStall = true ∧ s.rm.lockSignal = false then 1 else 0) +
      if s.unlocks then 1 else 0 := by
    unfold Latched.lockRank Latched.unlocks
    cases s.rr .lockStall <;> cases s.rm.lockSignal <;> rfl
  simp only [Latched.rank, Latched.moves, Latched.freed, Latched.grants, List.length_append,
    Nat.reduceAdd] at *
  omega

end Step
end TomasuloCpu
