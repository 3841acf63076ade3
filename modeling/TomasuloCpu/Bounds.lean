import TomasuloCpu.Refinement

set_option autoImplicit false

/-!
# Accesses inside memory

`_mem_get_sz` checks no bounds. Where no entry before it has led fetch away from
the path of `fakecpu`, an access is the one that `fakecpu` makes. What is accessed
off that path is what dispatch predicts and what the instructions there compute.
-/
namespace TomasuloCpu
open Clocked Walks

/-- `_inst_unit_tick` gets to `mem_get_inst`. -/
def Latched.fetches (s : Latched) : Bool := !s.rm.forcePc.busy && !robUnitFull s

/-- The slot whose load `_mem_tick` hands to `_mem_get_sz`. -/
def Latched.memReads (s : Latched) : Option ℕ := s.memReady.filter fun _ => (s.acquired 0).isSome

def InMemory (addr : Addr) (size : ℕ) : Prop := addr.toNat + size ≤ memSize

instance (addr : Addr) (size : ℕ) : Decidable (InMemory addr size) :=
  inferInstanceAs (Decidable (addr.toNat + size ≤ memSize))

def Latched.ReadsInside (s : Latched) : Prop :=
  (s.fetches = true → InMemory s.rm.pc 4) ∧
    ∀ i ∈ s.memReads, InMemory (s.rm.loadReq i).addr (lsBytes (s.rm.loadReq i).size)

instance (s : Latched) : Decidable s.ReadsInside :=
  @instDecidableAnd _ _ inferInstance (Option.decidableForallMem _)

section
variable {s : Latched} {p : Plain} {d d' : MemData}

/-- Fetch depends on memory by the word at its pc only. -/
theorem instUnitTick_reads (h : s.fetches = true →
      memGetInst d s.rm.pc = memGetInst p.data s.rm.pc) :
    instUnitTick s { p with data := d } = instUnitTick s p := by
  unfold Latched.fetches at h
  unfold instUnitTick
  cases hf : s.rm.forcePc.busy
  · cases hr : robUnitFull s
    · rw [hf, hr] at h
      simp only [h rfl]
    · simp only [hf, Bool.false_eq_true, ↓reduceIte]
  · simp only [hf, ↓reduceIte]

/-- The memory tick depends on memory by the load that it reads only. -/
theorem memTick_reads (h : ∀ i ∈ s.memReads,
      memGetSz d (s.rm.loadReq i).addr (s.rm.loadReq i).size =
        memGetSz d' (s.rm.loadReq i).addr (s.rm.loadReq i).size) :
    memTick s d = memTick s d' := by
  have hmsg : ∀ i, s.memReady = some i → (s.acquired 0).isSome = true →
      s.memMsg d i = s.memMsg d' i := by
    intro i hi ha
    rw [Latched.memMsg, Latched.memMsg, h i (Option.filter_eq_some_iff.2 ⟨hi, ha⟩)]
  have hsend : ∀ i, s.memReady = some i → memSendEffects s d i = memSendEffects s d' i := by
    intro i hi
    unfold memSendEffects
    have hm := hmsg i hi
    unfold Latched.acquired at hm
    generalize bhAcquire s 0 = acq at hm ⊢
    obtain ⟨es, b⟩ := acq
    cases b with
    | none => rfl
    | some b => rw [hm rfl]
  unfold memTick
  cases hc : s.rm.memClear
  · have hready : s.memReady = memSlots.find? fun i =>
        s.rr (.loadBusy i) && (s.rm.loadReq i).ticksRemaining - 1 ≤ 0 := by
      simp [Latched.memReady, hc]
    have hloads : memLoads s d = memLoads s d' := by
      rw [memLoads, memLoads, memLoadStep_foldl d memSlots _ memSlots_nodup,
        memLoadStep_foldl d' memSlots _ memSlots_nodup]
      simp only [Bool.false_eq_true, ↓reduceIte, ← hready]
      congr 1
      · congr 2
        cases hr : s.memReady with
        | none => rfl
        | some i =>
          cases ha : (s.acquired 0).isSome
          · simp [Option.filter]
          · simp [Option.filter, hmsg i hr ha]
      · congr 1
        refine List.flatMap_congr fun i _ => ?_
        split_ifs with hb hi
        · rw [hsend i hi]
        · rfl
        · rfl
    simp only [hloads]
  · rfl

end

section
variable [WideShift]

/-- Fetch does not go on where the instruction of an entry leads to. -/
def Latched.Misleads (s : Latched) (mem : MemData) (slot : ℤ) : Prop :=
  let data : RobPayload := s.rm.robPayload slot
  data.op = .hcf ∨ data.predictedNext ≠ (s.archAt mem slot).next data.inst data.pc

/-- Fetch followed some entries on the path of `fakecpu`. -/
def Latched.LedRight (s : Latched) (mem : MemData) (slots : List ℤ) : Prop :=
  ∀ i ∈ slots, ¬s.Misleads mem i

/-- Dispatch predicts another way than the instruction takes after the entries. -/
def Latched.Strays (s : Latched) (mem : MemData) (p : Plain) (inst : Inst) : Prop :=
  inst.op = InstOp.hcf ∨ dispatchNext s (branchPredict p.bp s.rm.pc) inst s.rm.pc ≠
    (s.archEnd mem).next inst s.rm.pc

/-- What dispatch predicts where fetch strays, and behind that, is inside memory, and
    so is the address that a load computes there from what the entries leave. -/
def Latched.StraysInside (s : Latched) (mem : MemData) (p : Plain) : Prop :=
  s.flushes = false → ∀ d ∈ s.dispatch p,
    (¬s.LedRight mem s.robs ∨ s.Strays mem p d.2 →
      InMemory (dispatchNext s (branchPredict p.bp s.rm.pc) d.2 s.rm.pc) 4) ∧
    (¬s.LedRight mem s.robs → d.2.opcode = Opcode.load →
      InMemory ((s.archEnd mem).address d.2) (lsBytes d.2.width))

/-- What is dispatched on that path is the word that the stores before it leave. -/
def Latched.DispatchesCurrent (s : Latched) (mem : MemData) (p : Plain) : Prop :=
  (s.dispatch p).isSome = true → s.LedRight mem s.robs →
    memGetInst p.data s.rm.pc = memGetInst (s.archEnd mem).data s.rm.pc

end

instance {_ : WideShift} (s : Latched) (mem : MemData) (slot : ℤ) :
    Decidable (s.Misleads mem slot) := inferInstanceAs (Decidable (_ ∨ _))

instance {_ : WideShift} (s : Latched) (mem : MemData) (slots : List ℤ) :
    Decidable (s.LedRight mem slots) := inferInstanceAs (Decidable (∀ i ∈ slots, _))

instance {_ : WideShift} (s : Latched) (mem : MemData) (p : Plain) (inst : Inst) :
    Decidable (s.Strays mem p inst) := inferInstanceAs (Decidable (_ ∨ _))

instance {_ : WideShift} (s : Latched) (mem : MemData) (p : Plain) :
    Decidable (s.StraysInside mem p) :=
  @instDecidableForall _ _ inferInstance (Option.decidableForallMem _)

instance {_ : WideShift} (s : Latched) (mem : MemData) (p : Plain) :
    Decidable (s.DispatchesCurrent mem p) := inferInstanceAs (Decidable (_ → _ → _))

variable [WideShift] {s s' : Latched} {q p q' : Plain} {image : MemData} {slot : ℤ}

/-- The entries that fetch led to the right place hold what `fakecpu` fetches there. -/
structure Follows (image : MemData) (s : Latched) (q : Plain) : Prop where
  refines : Refines image s q
  current : s.rm.robs.clear = false → ∀ slot ∈ s.robs,
    s.LedRight (q.memory image) (s.older slot) → (s.rm.robPayload slot).inst =
      instDecode (memGetInst (s.archAt (q.memory image) slot).data (s.rm.robPayload slot).pc)

section
variable (ref : Refines image s q) (st : Step s q p s' q') (hc : s.rm.robs.clear = false)
include ref st hc

theorem misleads_same (hs : slot ∈ s.robs) (hr : ¬(s.retires = true ∧ slot = s.rm.robs.head)) :
    s'.Misleads (q'.memory image) slot ↔ s.Misleads (q.memory image) slot := by
  have ctl := ref.coherent.conserved.control
  have hsame := st.robPayload_same ctl hs
  have harch := st.archAt_eq ctl ref.coherent.entries hc (ref.operands.head_resolved ctl) hs hr
  simp only [Latched.Misleads, RobPayload.predictedNext, harch, hsame.op, hsame.inst, hsame.pc,
    hsame.predictedAddr, hsame.predictedTake]

omit st hc in
theorem head_leads (hr : s.retires = true) (hf : s.flushes = false) :
    ¬s.Misleads (q.memory image) s.rm.robs.head := by
  have ctl := ref.coherent.conserved.control
  have hcm := Latched.commits_of_retires hr
  have hm := head_mem ctl hcm
  have hok := ref.coherent.entries.entry _ hm
  have hbit := ref.branches.ready _ hm (ready_of_commits hcm)
  have hres := ref.operands.ready _ hm (ready_of_commits hcm)
  rintro (ho | hne)
  · have ho : s.head.op = .hcf := ho
    simp [Latched.retires, ho] at hr
  · refine hne ?_
    rw [hres.next_eq hok hbit, hok.next_of_predicted hbit fun ho => ?_]
    rw [← Bool.not_eq_true]
    intro hm
    rw [Latched.flushes_iff.2 ⟨hcm, ho, hm⟩] at hf
    cases hf

theorem ledRight_step {l : List ℤ} (hsub : ∀ i ∈ l, i ∈ s.robs) (hl : ∀ i ∈ l, i ∈ s'.robs)
    (h : s.LedRight (q.memory image) l) : s'.LedRight (q'.memory image) l := by
  intro i hi
  have hr := st.not_popped ref.coherent.conserved.control hc (hsub i hi) (hl i hi)
  rw [misleads_same ref st hc (hsub i hi) hr]
  exact h i hi

/-- A dispatched entry leads right if dispatch predicts the way that it takes. -/
theorem misleads_dispatch {rs : RsId} {inst : Inst} (hd : s.dispatch p = some (rs, inst)) :
    s'.Misleads (q'.memory image) s.rm.robs.tail ↔ s.Strays (q.memory image) p inst := by
  have ctl := ref.coherent.conserved.control
  have hl := (dispatch_decoded hd).2
  have harch := st.archAt_dispatch ctl ref.coherent.entries hc
    (ref.operands.head_resolved ctl) (by simp [hd])
  obtain ⟨-, hentry, hpc, hinst⟩ := st.entry_dispatch hd
  have hnext : (s'.rm.robPayload s.rm.robs.tail).predictedNext =
      dispatchNext s (branchPredict p.bp s.rm.pc) inst s.rm.pc := by
    rw [st.robPayload_dispatch hd, dispatchRobPayload_next hl]
  have hop : (s'.rm.robPayload s.rm.robs.tail).op = instRobOp inst := by
    rw [st.robPayload_dispatch hd]
    exact (dispatchRobPayload_fields s _ _ _ _ _ _).1
  rw [Latched.Misleads, Latched.Strays, harch, hpc, hinst, hnext, hop, hl.robOp_hcf_iff]

/-- Entries that lead right after a tick did so before it, with the one it retires. -/
theorem ledRight_of_step (hf : s.flushes = false) {l l' : List ℤ}
    (hl : (if s.retires then [s.rm.robs.head] else []) ++ l = l') (hsub : ∀ i ∈ l', i ∈ s.robs)
    (h : s'.LedRight (q'.memory image) l) : s.LedRight (q.memory image) l' := by
  intro i hi
  by_cases hr : s.retires = true ∧ i = s.rm.robs.head
  · obtain ⟨hr, rfl⟩ := hr
    exact head_leads ref hr hf
  · rw [← misleads_same ref st hc (hsub i hi) hr]
    apply h i
    rw [← hl, List.mem_append] at hi
    refine hi.resolve_left fun hm => hr ?_
    split_ifs at hm with ht
    · exact ⟨ht, List.mem_singleton.1 hm⟩
    · cases hm

end

namespace Follows
variable {P : FakeCpu → Prop} {cpu : FakeCpu} (ok : Follows image s q)
include ok

theorem head_inst (sim : Simulates image s q cpu) (hc : s.commits = true) :
    s.head.inst = instDecode (memGetInst cpu.data cpu.pc) := by
  have ctl := ok.refines.coherent.conserved.control
  obtain ⟨hm, -, hpc⟩ := ok.refines.head_eq sim hc
  have hnil := older_head ctl hc
  have h := ok.current (Latched.clear_of_commits hc) _ hm (by
    rw [hnil]
    intro i hi
    cases hi)
  have hdata : (s.archAt (q.memory image) s.rm.robs.head).data = cpu.data := by
    rw [Latched.archAt, hnil]
    exact (congrArg Arch.data sim.arch).symm
  rw [hdata] at h
  rw [← hpc]
  exact h

theorem step (ha : (fakeCpuCreate image).Always P) (links : s.TakesLinks p)
    (hpick : ∀ rs, s.loadPick = some rs → s.Foremost (robSlot (s.rm.rsPayload rs).dest))
    (hcur : s.DispatchesCurrent (q.memory image) p) (st : Step s q p s' q') :
    Follows image s' q' where
  refines := ok.refines.step (fun _ sim => ⟨(sim.always ha).2, ok.head_inst sim⟩) links hpick st
  current := by
    have ref := ok.refines
    have ctl := ref.coherent.conserved.control
    have ent := ref.coherent.entries
    have hh := ref.operands.head_resolved ctl
    intro hc' slot hs hled
    cases hc : s.rm.robs.clear
    · have hf : s.flushes = false := st.robsClear.symm.trans hc'
      rcases (st.mem_robs ctl hc).1 hs with ⟨hm, hr⟩ | ⟨hd, rfl⟩
      · have hsame := st.robPayload_same ctl hm
        have hled := ledRight_of_step ref st hc hf (st.older_eq ctl hc hm hr)
          (fun _ => older_subset) hled
        rw [hsame.inst, hsame.pc, st.archAt_eq ctl ent hc hh hm hr]
        exact ok.current hc slot hm hled
      · have hled := ledRight_of_step ref st hc hf (st.dispatch_older ctl hc hd)
          (fun _ h => h) hled
        have harch := st.archAt_dispatch ctl ent hc hh hd
        have hcur := hcur hd hled
        obtain ⟨⟨rs, inst⟩, hd⟩ := Option.isSome_iff_exists.1 hd
        obtain ⟨-, -, hpc, hinst⟩ := st.entry_dispatch hd
        rw [harch, hpc, hinst, ← hcur]
        exact (dispatch_spec hd).1
    · simp [(st.quiet ctl hc).robs] at hs

/-- `fakecpu`, having executed the entries before one, is at that entry. -/
theorem entry_eq {cpu' : FakeCpu} (sim : Simulates image s q cpu) (hc : s.rm.robs.clear = false)
    {l r : List ℤ} {i : ℤ} (hl : s.robs = l ++ i :: r) (h : s.LedRight (q.memory image) l)
    (harch : cpu'.arch = (s.committed (q.memory image)).after (l.map s.rm.robPayload))
    (hwalk : Walk RobPayload.pc RobPayload.predictedNext cpu.pc (l.map s.rm.robPayload) cpu'.pc) :
    s.archAt (q.memory image) i = cpu'.arch ∧ (s.rm.robPayload i).pc = cpu'.pc ∧
      (s.rm.robPayload i).inst = instDecode (memGetInst cpu'.data cpu'.pc) := by
  have hold := older_of_append ok.refines.coherent.conserved.control hl
  have hat : s.archAt (q.memory image) i = cpu'.arch := by
    rw [harch, Latched.archAt, hold]
  have hpc : (s.rm.robPayload i).pc = cpu'.pc := by
    have hw := sim.path.window hc
    rw [hl, List.map_append, walk_append] at hw
    obtain ⟨b, hb, hi, -⟩ := hw
    exact hi.trans (hb.end_unique hwalk)
  refine ⟨hat, hpc, ?_⟩
  have hinst := ok.current hc i (by simp [hl]) (hold ▸ h)
  rw [hat, hpc] at hinst
  exact hinst

/-- While fetch is led right, `fakecpu` executes the entries in flight one by one. -/
theorem run_window (ha : (fakeCpuCreate image).Always P) (sim : Simulates image s q cpu)
    (hc : s.rm.robs.clear = false) {l r : List ℤ} (hl : s.robs = l ++ r)
    (h : s.LedRight (q.memory image) l) : ∃ cpu',
      FakeCpu.run (q.retired.length + l.length) (fakeCpuCreate image) = some cpu' ∧
      cpu'.hcf = false ∧
      cpu'.arch = (s.committed (q.memory image)).after (l.map s.rm.robPayload) ∧
      Walk RobPayload.pc RobPayload.predictedNext cpu.pc (l.map s.rm.robPayload) cpu'.pc := by
  have ref := ok.refines
  induction l using List.reverseRecOn generalizing r with
  | nil => exact ⟨cpu, sim.run, sim.running, sim.arch, rfl⟩
  | append_singleton l i ih =>
    rw [List.append_assoc, List.singleton_append] at hl
    obtain ⟨cpu₁, hrun, hrunning, harch, hwalk⟩ := ih hl fun j hj => h j (List.mem_append_left _ hj)
    have hm : i ∈ s.robs := by simp [hl]
    have hok := ref.coherent.entries.entry i hm
    have hnot := h i (by simp)
    obtain ⟨hat, hpc, hinst⟩ := ok.entry_eq sim hc hl (fun j hj => h j (List.mem_append_left _ hj))
      harch hwalk
    have hop : (s.rm.robPayload i).inst.op ≠ InstOp.hcf := fun ho =>
      hnot (.inl (hok.op.trans (hok.legal.robOp_hcf_iff.2 ho)))
    obtain ⟨-, cpu₂, ht, hrun₂⟩ := ha.goes_on hrun hrunning
    obtain ⟨h₁, h₂, -, h₄⟩ := tick_spec hok.legal hinst hop ht
    have hnext : (s.rm.robPayload i).predictedNext = cpu₂.pc := by
      rw [h₄, ← hat, ← hpc]
      by_contra hne
      exact hnot (.inr hne)
    refine ⟨cpu₂, ?_, h₂.trans hrunning, ?_, ?_⟩
    · rw [List.length_append, List.length_singleton, ← Nat.add_assoc]
      exact hrun₂
    · rw [h₁, harch, List.map_append, Arch.after_append, ← hpc]
      rfl
    · rw [List.map_append, ← hnext]
      exact hwalk.concat hpc

/-- A fetch that no entry led away from the path is one of `fakecpu`. -/
theorem fetch_inside (ha : (fakeCpuCreate image).Always FakeCpu.InRange) (hf : s.fetches = true)
    (h : s.LedRight (q.memory image) s.robs) : InMemory s.rm.pc 4 := by
  obtain ⟨cpu, sim⟩ := ok.refines.simulated
  have hc : s.rm.robs.clear = false := by
    rw [← ok.refines.coherent.conserved.control.forcePc]
    simp only [Latched.fetches, Bool.and_eq_true, Bool.not_eq_true'] at hf
    exact hf.1
  obtain ⟨cpu', hrun, hrunning, -, hwalk⟩ := ok.run_window ha sim hc (List.append_nil _).symm h
  rw [(sim.path.window hc).end_unique hwalk]
  exact (ha.goes_on hrun hrunning).1.1

/-- So is the load of an entry that fetch got to on the path. -/
theorem load_inside (ha : (fakeCpuCreate image).Always FakeCpu.InRange) {i : ℕ}
    (hi : s.memReads = some i)
    (h : s.LedRight (q.memory image) (s.older (robSlot (s.rm.loadReq i).baseMsg.rob))) :
    InMemory (s.rm.loadReq i).addr (lsBytes (s.rm.loadReq i).size) := by
  obtain ⟨cpu, sim⟩ := ok.refines.simulated
  have inv := ok.refines.coherent.conserved
  obtain ⟨hmc, hmem, hb, -⟩ := memReady_spec (Option.filter_eq_some_iff.1 hi).1
  have hc : s.rm.robs.clear = false := inv.control.memClear.symm.trans hmc
  have hreq := ok.refines.operands.flow.mem i hmem hb
  have hm : robSlot (s.rm.loadReq i).baseMsg.rob ∈ s.robs :=
    (inv.mem_open (flow_carriers.mem i hmem hb)).1
  obtain ⟨l, r, hl⟩ := List.append_of_mem hm
  have hold := older_of_append inv.control hl
  rw [hold] at h
  obtain ⟨cpu', hrun, hrunning, harch, hwalk⟩ := ok.run_window ha sim hc hl h
  obtain ⟨hat, -, hinst⟩ := ok.entry_eq sim hc hl h harch hwalk
  have hload := hreq.load
  have haddr := hreq.addr
  rw [RobPayload.isLoad, hinst] at hload
  rw [hat, hinst] at haddr
  rw [haddr, hreq.size, hinst]
  have haccess : cpu'.access = some (cpu'.arch.address (instDecode (memGetInst cpu'.data cpu'.pc)),
      (instDecode (memGetInst cpu'.data cpu'.pc)).width) := by
    rw [FakeCpu.access, if_pos (.inl hload)]
    rfl
  exact (ha.goes_on hrun hrunning).1.2 _ haccess

end Follows

/-- Where fetch has strayed from the path, its pc and the loads there are inside memory. -/
structure Strayed (image : MemData) (s : Latched) (q : Plain) : Prop where
  follows : Follows image s q
  fetch : s.rm.robs.clear = false → ¬s.LedRight (q.memory image) s.robs → InMemory s.rm.pc 4
  load : s.rm.robs.clear = false → ∀ slot ∈ s.robs,
    ¬s.LedRight (q.memory image) (s.older slot) → (s.rm.robPayload slot).isLoad →
      InMemory ((s.archAt (q.memory image) slot).address (s.rm.robPayload slot).inst)
        (lsBytes (s.rm.robPayload slot).inst.width)

namespace Strayed
variable (ok : Strayed image s q)
include ok

theorem step_fetch (hin : s.StraysInside (q.memory image) p) (st : Step s q p s' q')
    (hc' : s'.rm.robs.clear = false) (hled : ¬s'.LedRight (q'.memory image) s'.robs) :
    InMemory s'.rm.pc 4 := by
  have ref := ok.follows.refines
  have ctl := ref.coherent.conserved.control
  cases hc : s.rm.robs.clear
  · have hf : s.flushes = false := st.robsClear.symm.trans hc'
    rw [st.pc_eq (ctl.forcePc.trans hc)]
    have hold : ∀ i ∈ s'.robs, i ∈ s.robs → s.LedRight (q.memory image) s.robs →
        ¬s'.Misleads (q'.memory image) i := by
      intro i hi hm hs
      rw [misleads_same ref st hc hm (st.not_popped ctl hc hm hi)]
      exact hs i hm
    cases hd : s.dispatch p with
    | none =>
      refine ok.fetch hc fun hs => hled fun i hi => ?_
      rcases (st.mem_robs ctl hc).1 hi with ⟨hm, -⟩ | ⟨hd', -⟩
      · exact hold i hi hm hs
      · simp [hd] at hd'
    | some d =>
      refine (hin hf d hd).1 ?_
      by_contra hn
      rw [not_or, not_not] at hn
      refine hled fun i hi => ?_
      rcases (st.mem_robs ctl hc).1 hi with ⟨hm, -⟩ | ⟨-, rfl⟩
      · exact hold i hi hm hn.1
      · rw [misleads_dispatch ref st hc hd]
        exact hn.2
  · refine absurd (fun i hi => ?_) hled
    simp [(st.quiet ctl hc).robs] at hi

theorem step_load (hin : s.StraysInside (q.memory image) p) (st : Step s q p s' q')
    (hc' : s'.rm.robs.clear = false) {slot : ℤ} (hs : slot ∈ s'.robs)
    (hled : ¬s'.LedRight (q'.memory image) (s'.older slot))
    (hload : (s'.rm.robPayload slot).isLoad) :
    InMemory ((s'.archAt (q'.memory image) slot).address (s'.rm.robPayload slot).inst)
      (lsBytes (s'.rm.robPayload slot).inst.width) := by
  have ref := ok.follows.refines
  have ctl := ref.coherent.conserved.control
  have hh := ref.operands.head_resolved ctl
  cases hc : s.rm.robs.clear
  · have hf : s.flushes = false := st.robsClear.symm.trans hc'
    have hback : ∀ l, (∀ i ∈ s'.older slot, i ∈ l) → (∀ i ∈ l, i ∈ s.robs) →
        ¬s.LedRight (q.memory image) l := by
      intro l hsub hl h
      refine hled (ledRight_step ref st hc (fun i hi => hl i (hsub i hi))
        (fun i hi => older_subset hi) fun i hi => h i (hsub i hi))
    rcases (st.mem_robs ctl hc).1 hs with ⟨hm, hr⟩ | ⟨hd, rfl⟩
    · have hsame := st.robPayload_same ctl hm
      rw [RobPayload.isLoad, hsame.inst] at hload
      rw [st.archAt_eq ctl ref.coherent.entries hc hh hm hr, hsame.inst]
      refine ok.load hc slot hm (hback _ (fun i hi => ?_) fun i hi => older_subset hi) hload
      exact st.older_sub ctl hc hm hr hi
    · have harch := st.archAt_dispatch ctl ref.coherent.entries hc hh hd
      have hold := st.dispatch_older ctl hc hd
      obtain ⟨⟨rs, inst⟩, hd⟩ := Option.isSome_iff_exists.1 hd
      obtain ⟨-, -, -, hinst⟩ := st.entry_dispatch hd
      rw [RobPayload.isLoad, hinst] at hload
      rw [harch, hinst]
      refine (hin hf _ hd).2 (hback _ (fun i hi => ?_) fun i hi => hi) hload
      rw [← hold]
      exact List.mem_append_right _ hi
  · simp [(st.quiet ctl hc).robs] at hs

theorem step {P : FakeCpu → Prop} (ha : (fakeCpuCreate image).Always P) (links : s.TakesLinks p)
    (hpick : ∀ rs, s.loadPick = some rs → s.Foremost (robSlot (s.rm.rsPayload rs).dest))
    (hcur : s.DispatchesCurrent (q.memory image) p) (hin : s.StraysInside (q.memory image) p)
    (st : Step s q p s' q') : Strayed image s' q' where
  follows := ok.follows.step ha links hpick hcur st
  fetch := ok.step_fetch hin st
  load := fun hc' _ hs => ok.step_load hin st hc' hs

/-- The accesses on the path are those of `fakecpu`, the others are inside as well. -/
theorem readsInside (ha : (fakeCpuCreate image).Always FakeCpu.InRange) : s.ReadsInside := by
  have ref := ok.follows.refines
  have inv := ref.coherent.conserved
  constructor
  · intro hf
    by_cases hled : s.LedRight (q.memory image) s.robs
    · exact ok.follows.fetch_inside ha hf hled
    · refine ok.fetch ?_ hled
      rw [← inv.control.forcePc]
      simp only [Latched.fetches, Bool.and_eq_true, Bool.not_eq_true'] at hf
      exact hf.1
  · intro i hi
    by_cases hled : s.LedRight (q.memory image) (s.older (robSlot (s.rm.loadReq i).baseMsg.rob))
    · exact ok.follows.load_inside ha hi hled
    · obtain ⟨hmc, hmem, hb, -⟩ := memReady_spec (Option.filter_eq_some_iff.1 hi).1
      have hreq := ref.operands.flow.mem i hmem hb
      rw [hreq.addr, hreq.size]
      exact ok.load (inv.control.memClear.symm.trans hmc) _
        (inv.mem_open (flow_carriers.mem i hmem hb)).1 hled hreq.load

end Strayed

def DispatchesCurrent (image : MemData) (o : Schedule) (c : Cpu) : Prop :=
  (latch c).DispatchesCurrent (c.plain.memory image) (cpuPlainAt o c .instUnitTick)

instance {_ : WideShift} (image : MemData) (o : Schedule) (c : Cpu) :
    Decidable (DispatchesCurrent image o c) :=
  inferInstanceAs (Decidable ((latch c).DispatchesCurrent _ _))

def StraysInside (image : MemData) (o : Schedule) (c : Cpu) : Prop :=
  (latch c).StraysInside (c.plain.memory image) (cpuPlainAt o c .instUnitTick)

instance {_ : WideShift} (image : MemData) (o : Schedule) (c : Cpu) :
    Decidable (StraysInside image o c) :=
  inferInstanceAs (Decidable ((latch c).StraysInside _ _))

section
variable (image : MemData) (garbage : ℤ → ℤ → ℤ) (hist : ℤ)

theorem strayed_cpuCreate : Strayed image (latch (cpuCreate image garbage hist))
    (cpuCreate image garbage hist).plain where
  follows := ⟨refines_cpuCreate image garbage hist, fun _ _ hs => by cases hs⟩
  fetch := fun _ hled => absurd (fun _ hs => by cases hs) hled
  load := fun _ _ hs => by cases hs

/-- In runs that take links, push loads in order, dispatch no stale words and predict and
    compute addresses inside memory where fetch strays, every tick reads inside memory. -/
theorem reads_inside {os : List Schedule} {c : Cpu}
    (ha : (fakeCpuCreate image).Always FakeCpu.InRange)
    (hr : cpuRun os (cpuCreate image garbage hist) = .ok c)
    (hw : RunAll (fun o c => PushesForemost o c ∧ TakesLinks o c ∧ DispatchesCurrent image o c ∧
      StraysInside image o c) os (cpuCreate image garbage hist)) : (latch c).ReadsInside := by
  have ok : Strayed image (latch c) c.plain :=
    hw.induction (I := Strayed image) (strayed_cpuCreate image garbage hist)
      (fun ok h st => ok.step ha h.2.1 (fun rs hp => h.1 rs hp) h.2.2.1 h.2.2.2 st) hr
  exact ok.readsInside ha

end

omit [WideShift] in
/-- Behind a branch that is predicted wrong. -/
theorem reads_inside_branch : (latch (bootCpu 4 branchProgram)).ReadsInside :=
  @reads_inside .masked (imageOf branchProgram) (fun _ _ => 0) 0 (bootTicks 4)
    (bootCpu 4 branchProgram) (@FakeCpu.always_of_reaches .masked _ _ 4 _ (by decide +kernel))
    (cpuRun_boot (by decide +kernel)) (by decide +kernel)

/-- `addi x1,x0,12; jalr x0,-4(x1); HCF`: the target is predicted from `x1` before the
    `addi` has written it. -/
def strayProgram : List Word := [0x00c00093, 0xffc08067, instMagicHcf]

omit [WideShift] in
theorem strayProgram_reads_outside :
    @FakeCpu.reaches .masked FakeCpu.InRange _ 3 (fakeCpuCreate (imageOf strayProgram)) = true ∧
    @cpuRun .masked (bootTicks 2) (boot strayProgram) = .ok (bootCpu 2 strayProgram) ∧
    (bootCpu 2 strayProgram).plain.hcf = false ∧
    (latch (bootCpu 2 strayProgram)).fetches = true ∧
    (latch (bootCpu 2 strayProgram)).rm.pc = 0xfffffffc ∧
    ¬(latch (bootCpu 2 strayProgram)).ReadsInside :=
  ⟨by decide +kernel, cpuRun_boot (by decide +kernel), by decide +kernel, by decide +kernel,
    by decide +kernel, by decide +kernel⟩

end TomasuloCpu
