import TomasuloCpu.Boot
import TomasuloCpu.Carriers

set_option autoImplicit false

/-!
# Conservation of results

Every entry of the reorder buffer that is not ready has exactly one carrier, and
there are no other carriers.
-/
namespace TomasuloCpu
open Clocked Transfer

def RobPayload.fixed (data : RobPayload) : RobPayload :=
  { data with value := 0, addr := 0, addrReady := false, valueReady := false }

/-- What entries with the same fixed part agree on. -/
structure RobPayload.Same (a b : RobPayload) : Prop where
  op : a.op = b.op
  pc : a.pc = b.pc
  dest : a.dest = b.dest
  size : a.size = b.size
  fallback : a.fallback = b.fallback
  predictedTake : a.predictedTake = b.predictedTake
  predictedAddr : a.predictedAddr = b.predictedAddr
  seq : a.seq = b.seq
  inst : a.inst = b.inst

theorem RobPayload.same_of_fixed {a b : RobPayload} (h : a.fixed = b.fixed) : a.Same b := by
  simp only [fixed, mk.injEq] at h
  obtain ⟨hop, -, -, hpc, hdest, hsize, -, -, -, hf, ht, ha, hseq, hinst⟩ := h
  exact ⟨hop, hpc, hdest, hsize, hf, ht, ha, hseq, hinst⟩

theorem robMsgPayload_fixed (data : RobPayload) (msg : CdbMessage) :
    (robMsgPayload data msg).fixed = data.fixed := by
  unfold robMsgPayload
  split <;> rfl

theorem rsStorePayload_fixed (data : RsPayload) (old : RobPayload) :
    (rsStorePayload data old).fixed = old.fixed := by
  simp only [rsStorePayload]
  split_ifs <;> rfl

theorem dispatchRobPayload_seq {s : Latched} {predicted : BpResult} {seq : ℕ} {rs : RsId}
    {inst : Inst} {pc : Addr} {old : RobPayload} :
    (dispatchRobPayload s predicted seq rs inst pc old).seq = seq := by
  simp only [dispatchRobPayload]
  split <;> (try split_ifs) <;> rfl

variable [WideShift] {s s' : Latched} {q p q' : Plain}

omit [WideShift] in
/-- The head of a reorder buffer that commits is its oldest entry. -/
theorem robs_head (ctl : Control s) (h : s.commits = true) :
    s.robs = s.rm.robs.head :: s.robs.tail := by
  have hne : s.rm.robs.head ≠ s.rm.robs.tail := by
    simpa [queueEmpty] using Latched.commits_nonempty h
  exact (List.cons_head?_tail (ctl.robs.head?_queueForeach hne)).symm

omit [WideShift] in
theorem head_mem (ctl : Control s) (h : s.commits = true) : s.rm.robs.head ∈ s.robs := by
  rw [robs_head ctl h]
  exact List.mem_cons_self

omit [WideShift] in
theorem ready_of_commits (h : s.commits = true) : s.rm.robReady s.rm.robs.head = true := by
  simp only [Latched.commits, Bool.and_eq_true] at h
  exact h.2

namespace Step
variable (st : Step s q p s' q')
include st

theorem robPayload_same (ctl : Control s) {slot : ℤ} (hs : slot ∈ s.robs) :
    (s'.rm.robPayload slot).Same (s.rm.robPayload slot) := by
  refine RobPayload.same_of_fixed ?_
  rcases st.cases (.robPayload slot) with
    ⟨v, ⟨-, -, msg, -, -, rfl⟩ | ⟨rs, -, rfl, rfl⟩ | ⟨rfl, -⟩, hv⟩ | ⟨-, hk⟩
  · have hv : s'.rm.robPayload slot = _ := hv
    rw [hv, robMsgPayload_fixed]
  · have hv : s'.rm.robPayload _ = _ := hv
    rw [hv, Latched.storeEntry, rsStorePayload_fixed]
  · exact absurd hs ctl.robs.tail_notMem
  · have hk : s'.rm.robPayload slot = s.rm.robPayload slot := hk
    rw [hk]

theorem robKey_eq (ctl : Control s) {slot : ℤ} (hs : slot ∈ s.robs) :
    s'.robKey slot = s.robKey slot := by
  exact congrArg (Prod.mk (robId slot)) (st.robPayload_same ctl hs).seq

theorem robPayload_dispatch {rs : RsId} {inst : Inst} (h : s.dispatch p = some (rs, inst)) :
    s'.rm.robPayload s.rm.robs.tail = dispatchRobPayload s (branchPredict p.bp s.rm.pc)
      q.dispatched rs inst s.rm.pc (s.rm.robPayload s.rm.robs.tail) := by
  have := st.written (r := .robPayload s.rm.robs.tail) (.inr (.inr ⟨rfl, rs, inst, h, rfl⟩))
  rw [st.seq] at this
  exact this

theorem robReady_dispatch (h : (s.dispatch p).isSome) :
    s'.rm.robReady s.rm.robs.tail = false := by
  obtain ⟨⟨rs, inst⟩, h⟩ := Option.isSome_iff_exists.1 h
  exact st.written (r := .robReady s.rm.robs.tail) (.inr (.inr (.inr ⟨rfl, ⟨rs, inst, h⟩, rfl⟩)))

theorem robReady_iff (ctl : Control s) (hc : s.rm.robs.clear = false) {slot : ℤ}
    (hs : slot ∈ s.robs) (hr : ¬(s.retires = true ∧ slot = s.rm.robs.head)) :
    s'.rm.robReady slot = true ↔ s.rm.robReady slot = true ∨
      (∃ msg, s.delivered = some msg ∧ msg.rob = robId slot) ∨
      (∃ rs, s.storeFrees = some rs ∧ slot = robSlot (s.rm.rsPayload rs).dest) := by
  rcases st.cases (.robReady slot) with
    ⟨v, ⟨h, h', -⟩ | ⟨-, -, h, rfl⟩ | ⟨h, rfl⟩ | ⟨rfl, -, -⟩, hv⟩ | ⟨hn, hk⟩
  · exact absurd ⟨h, h'⟩ hr
  · have hv : s'.rm.robReady slot = true := hv
    simp [hv, h]
  · have hv : s'.rm.robReady slot = true := hv
    simp [hv, h]
  · exact absurd hs ctl.robs.tail_notMem
  · have hk : s'.rm.robReady slot = s.rm.robReady slot := hk
    rw [hk]
    refine ⟨.inl, ?_⟩
    rintro (h | h | h)
    · exact h
    · exact absurd (.inr (.inl ⟨hc, hs, h, rfl⟩)) (hn true)
    · exact absurd (.inr (.inr (.inl ⟨h, rfl⟩))) (hn true)

/-- What a tick leaves in the reorder buffer, and what it adds. -/
theorem mem_robs (ctl : Control s) (hc : s.rm.robs.clear = false) {slot : ℤ} : slot ∈ s'.robs ↔
    (slot ∈ s.robs ∧ ¬(s.retires = true ∧ slot = s.rm.robs.head)) ∨
      ((s.dispatch p).isSome ∧ slot = s.rm.robs.tail) := by
  rw [st.robs_eq hc ctl.robs, List.mem_append]
  refine or_congr ?_ ?_
  · cases hr : s.retires
    · simp
    · have hcons := robs_head ctl (Latched.commits_of_retires hr)
      have hnd := ctl.robs.queueForeach_nodup
      change s.robs.Nodup at hnd
      simp only [↓reduceIte, true_and]
      rw [hcons] at hnd ⊢
      rw [List.nodup_cons] at hnd
      simp only [List.tail_cons, List.mem_cons]
      constructor
      · intro hm
        exact ⟨.inr hm, fun he => hnd.1 (he ▸ hm)⟩
      · rintro ⟨h | h, hne⟩
        · exact absurd h hne
        · exact h
  · cases (s.dispatch p).isSome <;> simp

theorem not_popped (ctl : Control s) (hc : s.rm.robs.clear = false) {slot : ℤ}
    (hm : slot ∈ s.robs) (hs : slot ∈ s'.robs) :
    ¬(s.retires = true ∧ slot = s.rm.robs.head) := by
  rcases (st.mem_robs ctl hc).1 hs with ⟨-, hn⟩ | ⟨-, rfl⟩
  · exact hn
  · exact absurd hm ctl.robs.tail_notMem

end Step

/-- The results on their way are those that the reorder buffer waits for. -/
structure Conserved (s : Latched) : Prop where
  control : Control s
  helper : ∀ h < helperCount, HelperOk s h
  alu : ∀ a < aluCount, AluOk s a
  perm : s.carriers.Perm s.openKeys

namespace Conserved
variable (inv : Conserved s)
include inv

omit [WideShift] in
theorem mem_open {k : Key} (h : k ∈ s.carriers) :
    robSlot k.1 ∈ s.robs ∧ s.rm.robReady (robSlot k.1) = false ∧
      (s.rm.robPayload (robSlot k.1)).seq = k.2 := by
  obtain ⟨slot, hs, rfl⟩ := List.mem_map.1 (inv.perm.mem_iff.1 h)
  have := List.mem_filter.1 hs
  simpa [Latched.robKey] using this

omit [WideShift] in
theorem carriers_nodup : (s.carriers.map Prod.fst).Nodup := by
  refine (inv.perm.map Prod.fst).nodup_iff.2 ?_
  rw [Latched.openKeys, List.map_map]
  refine List.Nodup.map ?_ (inv.control.robs.queueForeach_nodup.filter _)
  intro i j h
  simpa [Latched.robKey] using h

omit inv [WideShift] in
theorem mem_rsKeys {rs : RsId} (hs : rs ∈ stations) (hb : s.rm.rsBusy rs = true) :
    s.rsKey rs ∈ s.carriers := by
  simp only [Latched.carriers, List.append_assoc, List.mem_append]
  exact .inl (List.mem_map_of_mem (List.mem_filter.2 ⟨hs, hb⟩))

omit inv [WideShift] in
theorem delivered_mem {msg : CdbMessage} (h : s.delivered = some msg) : msg.key ∈ s.busKeys := by
  simp only [Latched.delivered, busGetData] at h
  split_ifs at h with hb hf
  cases h
  simp [Latched.busKeys, Latched.busQueue, hf]

omit [WideShift] in
theorem rs_open {rs : RsId} (hs : rs ∈ stations) (hb : s.rm.rsBusy rs = true) :
    robSlot (s.rm.rsPayload rs).dest ∈ s.robs ∧
      s.rm.robReady (robSlot (s.rm.rsPayload rs).dest) = false ∧
      (s.rm.robPayload (robSlot (s.rm.rsPayload rs).dest)).seq = (s.rm.rsPayload rs).seq :=
  inv.mem_open (mem_rsKeys hs hb)

omit [WideShift] in
theorem delivered_open {msg : CdbMessage} (h : s.delivered = some msg) :
    robSlot msg.rob ∈ s.robs ∧ s.rm.robReady (robSlot msg.rob) = false ∧
      (s.rm.robPayload (robSlot msg.rob)).seq = msg.seq :=
  inv.mem_open (k := msg.key) (by
    have := delivered_mem h
    simp only [Latched.carriers, List.append_assoc, List.mem_append]
    tauto)

omit [WideShift] in
theorem delivered_ne_rs {msg : CdbMessage} (h : s.delivered = some msg) {rs : RsId}
    (hs : rs ∈ stations) (hb : s.rm.rsBusy rs = true) : (s.rm.rsPayload rs).dest ≠ msg.rob := by
  have hnd := inv.carriers_nodup
  simp only [Latched.carriers, List.append_assoc, List.map_append, List.nodup_append] at hnd
  refine hnd.2.2 _ (List.mem_map_of_mem (List.mem_map_of_mem (List.mem_filter.2 ⟨hs, hb⟩))) _ ?_
  have hm := List.mem_map_of_mem (f := Prod.fst) (delivered_mem h)
  simp only [List.mem_append]
  tauto

variable (st : Step s q p s' q')
include st

def completed (s : Latched) : List ℤ :=
  s.storeFrees.toList.map (fun rs => robSlot (s.rm.rsPayload rs).dest) ++
    s.delivered.toList.map fun msg => robSlot msg.rob

omit inv st [WideShift] in
theorem mem_completed {slot : ℤ} : slot ∈ completed s ↔
    (∃ msg, s.delivered = some msg ∧ msg.rob = robId slot) ∨
      (∃ rs, s.storeFrees = some rs ∧ slot = robSlot (s.rm.rsPayload rs).dest) := by
  simp only [completed, List.mem_append, List.mem_map, Option.mem_toList]
  rw [or_comm]
  refine or_congr ?_ ?_
  · refine exists_congr fun msg => and_congr_right fun _ => ?_
    constructor
    · rintro rfl
      simp
    · intro h
      simp [h]
  · exact exists_congr fun rs => and_congr_right fun _ => eq_comm

/-- The open entries of a tick: those completed leave, the dispatched one joins. -/
theorem openUpdate (hc : s.rm.robs.clear = false) : Update s.robs s'.robs
    (fun slot => !s.rm.robReady slot) (fun slot => !s'.rm.robReady slot) (completed s)
      (if (s.dispatch p).isSome then [s.rm.robs.tail] else []) where
  nodup := inv.control.robs.queueForeach_nodup
  nodup' := (st.control inv.control).robs.queueForeach_nodup
  vacated_nodup := by
    have hto : ∀ {α : Type} (o : Option α) (f : α → ℤ), (o.toList.map f).Nodup := by
      intro α o f
      cases o <;> simp
    refine List.Nodup.append (hto _ _) (hto _ _) ?_
    intro slot h h'
    obtain ⟨rs, hf, rfl⟩ := List.mem_map.1 h
    obtain ⟨msg, hm, he⟩ := List.mem_map.1 h'
    have hb := freed_busy (mem_freed.2 (.inr (.inr (Option.mem_toList.1 hf))))
    refine inv.delivered_ne_rs (Option.mem_toList.1 hm) hb.1 hb.2 ?_
    have := congrArg robId he
    simpa using this.symm
  filled_nodup := by split <;> simp
  vacated := fun slot hs => by
    rcases mem_completed.1 hs with ⟨msg, hm, he⟩ | ⟨rs, hf, rfl⟩
    · have := inv.delivered_open hm
      simp only [he, robSlot_robId] at this
      simp [this.1, this.2.1]
    · have hb := freed_busy (mem_freed.2 (.inr (.inr hf)))
      have := inv.rs_open hb.1 hb.2
      simp [this.1, this.2.1]
  filled := fun slot hs => by
    split at hs
    · rw [List.mem_singleton.1 hs]
      exact fun h => inv.control.robs.tail_notMem h.1
    · cases hs
  occupied := fun slot => by
    have hhead : s.rm.robReady slot = false → ¬(s.retires = true ∧ slot = s.rm.robs.head) := by
      rintro hr ⟨h, rfl⟩
      simp [ready_of_commits (Latched.commits_of_retires h)] at hr
    have htail : slot ∈ (if (s.dispatch p).isSome then [s.rm.robs.tail] else []) ↔
        (s.dispatch p).isSome ∧ slot = s.rm.robs.tail := by
      split <;> simp_all
    rw [st.mem_robs inv.control hc, htail]
    simp only [Bool.not_eq_true']
    constructor
    · rintro ⟨⟨hs, hr⟩ | h, hn⟩
      · rw [← Bool.not_eq_true, st.robReady_iff inv.control hc hs hr, not_or,
          Bool.not_eq_true] at hn
        exact .inl ⟨hs, hn.1, fun h => hn.2 (mem_completed.1 h)⟩
      · exact .inr h
    · rintro (⟨hs, hn, hcm⟩ | h)
      · refine ⟨.inl ⟨hs, hhead hn⟩, ?_⟩
        rw [← Bool.not_eq_true, st.robReady_iff inv.control hc hs (hhead hn), not_or,
          Bool.not_eq_true]
        exact ⟨hn, fun h => hcm (mem_completed.2 h)⟩
      · refine ⟨.inr h, ?_⟩
        rw [h.2]
        exact st.robReady_dispatch h.1

theorem openKeys (hc : s.rm.robs.clear = false) :
    (s'.openKeys ++ (s.storeFrees.toList.map s.rsKey ++
      s.delivered.toList.map CdbMessage.key)).Perm (s.openKeys ++ s.dispatchKeys q p) := by
  have hp := (inv.openUpdate st hc).perm_map s.robKey s'.robKey
    fun slot hs _ _ _ => st.robKey_eq inv.control hs
  have hcomp : (completed s).map s.robKey =
      s.storeFrees.toList.map s.rsKey ++ s.delivered.toList.map CdbMessage.key := by
    rw [completed, List.map_append, List.map_map, List.map_map]
    congr 1
    · refine List.map_congr_left fun rs hf => ?_
      have hb := freed_busy (mem_freed.2 (.inr (.inr (Option.mem_toList.1 hf))))
      have := (inv.rs_open hb.1 hb.2).2.2
      simp [Latched.robKey, Latched.rsKey, RsPayload.key, this]
    · refine List.map_congr_left fun msg hm => ?_
      have := (inv.delivered_open (Option.mem_toList.1 hm)).2.2
      simp [Latched.robKey, CdbMessage.key, this]
  have hdisp : (if (s.dispatch p).isSome then [s.rm.robs.tail] else []).map s'.robKey =
      s.dispatchKeys q p := by
    rcases hd : s.dispatch p with _ | ⟨rs, inst⟩
    · simp [Latched.dispatchKeys, hd]
    · simp [Latched.dispatchKeys, hd, Latched.robKey, st.robPayload_dispatch hd,
        dispatchRobPayload_seq]
  rwa [hcomp, hdisp] at hp

theorem step : Conserved s' := by
  have hctl := st.control inv.control
  have hhelper : ∀ h < helperCount, HelperOk s' h := fun h hh =>
    st.helperOk inv.control (inv.helper h hh) hh
  rcases inv.control.busClear with ⟨-, hc⟩ | ⟨hb, hc, hq⟩ | ⟨hb, hc⟩
  · have hq := st.quiet inv.control hc
    refine ⟨hctl, hhelper, fun a ha => ?_, ?_⟩
    · simp [AluOk, hq.aluBusy a ha]
    · simp [hq.carriers, Latched.openKeys, hq.robs]
  · refine ⟨hctl, hhelper, fun a ha => ?_, ?_⟩
    · have hbusy : s'.rr (.aluBusy a) = false := by
        rw [st.not_raised]
        simp [Raised, Latched.aluMsg, bhShouldClear, hb, Latched.aluStarts]
      simp [AluOk, hbusy]
    · have h₁ := st.carriers_quiet inv.control hb hq inv.helper
      have h₂ := inv.openKeys st hc
      have hd : s.delivered = none := by simp [Latched.delivered, hb]
      have hs : s.storeFrees = none := by
        by_contra h
        obtain ⟨rs, h⟩ := Option.ne_none_iff_exists'.1 h
        have := mem_freed.2 (.inr (.inr h))
        simp [hq.freed] at this
      simp only [Latched.openKeys, hq.robs, List.filter_nil, hd, hs, Option.toList_none,
        List.map_nil, List.append_nil, List.nil_append] at h₂
      exact h₁.trans h₂.symm
  · refine ⟨hctl, hhelper, fun a ha => ?_, ?_⟩
    · exact (st.aluKeys ha (by simp [bhShouldClear, hb]) (inv.alu a ha)).1
    · have h₁ := st.carriers inv.control hb inv.helper inv.alu
      have h₂ := inv.openKeys st hc
      have h₃ := inv.perm
      have hd : s.delivered.toList.map CdbMessage.key = s.busKeys := by
        simp only [Latched.delivered, busGetData, hb, Latched.busKeys, Latched.busQueue]
        cases s.rm.fire <;> simp
      rw [hd] at h₂
      refine List.perm_iff_count.2 fun k => ?_
      have h₁ := h₁.count_eq k
      have h₂ := h₂.count_eq k
      have h₃ := h₃.count_eq k
      simp only [List.count_append] at h₁ h₂
      omega

theorem stable {slot : ℤ} (hs : slot ∈ s.robs) (hr : s.rm.robReady slot = true)
    (hs' : slot ∈ s'.robs) :
    s'.rm.robReady slot = true ∧ s'.rm.robPayload slot = s.rm.robPayload slot := by
  cases hc : s.rm.robs.clear
  · have hkeep : ¬(s.retires = true ∧ slot = s.rm.robs.head) := by
      rcases (st.mem_robs inv.control hc).1 hs' with h | ⟨-, rfl⟩
      · exact h.2
      · exact absurd hs inv.control.robs.tail_notMem
    refine ⟨(st.robReady_iff inv.control hc hs hkeep).2 (.inl hr), ?_⟩
    rcases st.cases (.robPayload slot) with
      ⟨v, ⟨-, -, msg, hm, he, -⟩ | ⟨rs, hp, rfl, -⟩ | ⟨rfl, -⟩, -⟩ | ⟨-, hk⟩
    · have := (inv.delivered_open hm).2.1
      simp [he, hr] at this
    · obtain ⟨hm, hb⟩ := storePick_spec hp
      have := (inv.rs_open (show rs ∈ stations by simp [stations, hm]) (storeReady_busy hb)).2.1
      simp [hr] at this
    · exact absurd hs inv.control.robs.tail_notMem
    · exact hk
  · have hq := st.quiet inv.control hc
    simp [hq.robs] at hs'

end Conserved

section
variable (image : MemData) (garbage : ℤ → ℤ → ℤ) (hist : ℤ)

omit [WideShift] in
theorem control_cpuCreate : Control (latch (cpuCreate image garbage hist)) where
  rsClear := rfl
  lsqClear := rfl
  memClear := rfl
  regClear := rfl
  forcePc := rfl
  busClear := .inr (.inr ⟨rfl, rfl⟩)
  robs := by
    have h : (0 : ℤ) ≤ 0 ∧ (0 : ℤ) < robCapacity := by decide
    exact ⟨h, h⟩
  lsq := by
    have h : (0 : ℤ) ≤ 0 ∧ (0 : ℤ) < lsQueueCapacity := by decide
    exact ⟨h, h⟩
  lsqReg := rfl

omit [WideShift] in
theorem conserved_cpuCreate : Conserved (latch (cpuCreate image garbage hist)) where
  control := control_cpuCreate image garbage hist
  helper := fun h _ => ⟨.inl rfl, id, rfl⟩
  alu := fun a _ h => by cases h.1
  perm := List.Perm.refl []

theorem conserved_of_cpuRun {os : List Schedule} {c : Cpu}
    (hr : cpuRun os (cpuCreate image garbage hist) = .ok c) : Conserved (latch c) :=
  cpuRun_induction (I := fun s _ => Conserved s) (conserved_cpuCreate image garbage hist)
    (fun inv st => inv.step st) hr

/-- On every run that trips no assertion an entry of the reorder buffer has exactly
    one carrier until it is ready and none from then on, nothing else is carried,
    and a ready entry does not change until it is retired. -/
theorem result_conservation {os : List Schedule} {c : Cpu}
    (hr : cpuRun os (cpuCreate image garbage hist) = .ok c) :
    (∀ slot ∈ (latch c).robs, ((latch c).carriers.map Prod.fst).count (robId slot) =
      if (latch c).rm.robReady slot then 0 else 1) ∧
    (∀ k ∈ (latch c).carriers, ∃ slot ∈ (latch c).robs, k.1 = robId slot) ∧
    ∀ o c', cpuTick o c = .ok c' → ∀ slot ∈ (latch c).robs, (latch c).rm.robReady slot = true →
      slot ∈ (latch c').robs → (latch c').rm.robReady slot = true ∧
        (latch c').rm.robPayload slot = (latch c).rm.robPayload slot := by
  have inv := conserved_of_cpuRun image garbage hist hr
  refine ⟨fun slot hs => ?_, fun k hk => ?_, fun o c' ht slot hs hready hs' => ?_⟩
  · have hnd := inv.carriers_nodup
    split_ifs with hready
    · refine List.count_eq_zero.2 fun hm => ?_
      obtain ⟨k, hk, he⟩ := List.mem_map.1 hm
      have := (inv.mem_open hk).2.1
      simp [he, hready] at this
    · refine List.count_eq_one_of_mem hnd ?_
      have hm : (latch c).robKey slot ∈ (latch c).carriers := by
        rw [inv.perm.mem_iff]
        exact List.mem_map_of_mem (List.mem_filter.2 ⟨hs, by simpa using hready⟩)
      exact List.mem_map_of_mem (f := Prod.fst) hm
  · exact ⟨robSlot k.1, (inv.mem_open hk).1, by simp⟩
  · obtain ⟨p, st⟩ := step_of_cpuTick ht
    exact inv.stable st hs hready hs'

end

omit [WideShift] in
/-- After two ticks one thing carries the result of the jump. -/
theorem result_conservation_link :
    ((latch (bootCpu 2 linkProgram)).carriers.map Prod.fst).count (robId 0) = 1 := by
  have hr := @cpuRun_boot 2 linkProgram (by decide +kernel)
  have h := (@result_conservation .masked _ _ _ _ _ hr).1 0 (by decide +kernel)
  rwa [if_neg (by decide +kernel)] at h

end TomasuloCpu
